import MessageCrypto.Hash.Sha2

/-!
# HMAC with SHA-256

The key is first brought to the length of one hash block: hashed if it is longer, then padded with
zeros on the right. The tag is the hash of the outer key followed by the hash of the inner key and
the message.

* `hmac`: the tag of a message, for keys of every length.
* `length_blockKey`, `length_hmac`: a block key has 64 bytes, a tag 32.
-/

namespace MessageCrypto.Hash

namespace Hmac

/-- The key at block length. -/
def blockKey (key : Bytes) : Bytes :=
  let short := if key.length ≤ 64 then key else sha256 key
  short ++ List.replicate (64 - short.length) 0

/-- The block key with every byte masked by 0x36. -/
def innerKey (key : Bytes) : Bytes := (blockKey key).map (· ^^^ 0x36)

/-- The block key with every byte masked by 0x5c. -/
def outerKey (key : Bytes) : Bytes := (blockKey key).map (· ^^^ 0x5c)

theorem length_blockKey (key : Bytes) : (blockKey key).length = 64 := by
  unfold blockKey
  split
  · rw [List.length_append, List.length_replicate]
    omega
  · simp

end Hmac

/-- HMAC-SHA256. -/
def hmac (key message : Bytes) : Bytes :=
  sha256 (Hmac.outerKey key ++ sha256 (Hmac.innerKey key ++ message))

@[simp] theorem length_hmac (key message : Bytes) : (hmac key message).length = 32 :=
  length_sha256 _

end MessageCrypto.Hash
