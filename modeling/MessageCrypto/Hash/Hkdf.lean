import MessageCrypto.Hash.Hmac

/-!
# HKDF with HMAC-SHA256

Extraction condenses key material and a salt to a pseudorandom key of 32 bytes; expansion chains
tags of the context under that key, each over the tag before it and a counter byte.

* `expand?` is defined up to 255 blocks, the range of the counter.
* `expand?_block`: one block is a single tag, so the chain starts from the empty tag.
-/

namespace MessageCrypto.Hash.Hkdf

def extract (salt material : Bytes) : Bytes := hmac salt material

/-- `count` further blocks after the block `last`, the next of which has the given index. -/
def blocks (prk context : Bytes) : (count index : Nat) → (last : Bytes) → Bytes
  | 0, _, _ => []
  | k + 1, i, last =>
    let block := hmac prk (last ++ context ++ [UInt8.ofNat i])
    block ++ blocks prk context k (i + 1) block

/-- `length` bytes of output, none if the counter byte cannot number their blocks. -/
def expand? (prk context : Bytes) (length : Nat) : Option Bytes :=
  if length ≤ 255 * 32 then some ((blocks prk context ((length + 31) / 32) 1 []).take length)
  else none

theorem expand?_block (prk context : Bytes) :
    expand? prk context 32 = some (hmac prk (context ++ [1])) := by
  simp [expand?, blocks, List.take_of_length_le]

end MessageCrypto.Hash.Hkdf
