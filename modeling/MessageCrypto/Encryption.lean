import MessageCrypto.Aes.Cbc
import MessageCrypto.Aes.Padding
import MessageCrypto.Derivation

/-!
# Encryption

AES-256 in CBC mode with padding, under a key of 32 bytes and an initialization vector of 16. The
cipher is deterministic: the caller has to choose a fresh vector. Encryption under a scheme takes a
master key of any length and derives the key of the scheme from it.

* `Aes256Cbc.encrypt`, `Aes256Cbc.decrypt`: with the key itself.
* `Aes256Cbc.setup_eq_ok_iff`: only the two lengths can be wrong.
* `encrypt`, `decrypt`: with the derived key.
-/

namespace MessageCrypto

open Aes (Block KeySchedule)

namespace Aes256Cbc

/-- The number of bytes of a key. -/
def keySize : Nat := 32

/-- The number of bytes of an initialization vector. -/
def vectorSize : Nat := Block.size

/-- The key blocks and the vector, if both have their lengths; the key is checked first. -/
def setup (key : SecretKey) (vector : Bytes) : Except Error (KeySchedule × Block) :=
  match Aes.Key.ofBytes? key.bytes, Block.split? vector with
  | none, _ => .error (.keyLength key.bytes.length)
  | some key, some [block] => .ok (.ofKey key, block)
  | some _, _ => .error (.vectorLength vector.length)

/-- Nothing but the lengths of key and vector is checked. -/
theorem setup_eq_ok_iff {key : SecretKey} {vector : Bytes} :
    (∃ s, setup key vector = .ok s) ↔ key.bytes.length = keySize ∧ vector.length = vectorSize := by
  rw [keySize, ← Aes.Key.isSome_ofBytes?_iff, show vectorSize = Block.size * 1 from rfl,
    ← Block.exists_split?_iff]
  cases hk : Aes.Key.ofBytes? key.bytes with
  | none => simp [setup, hk]
  | some k =>
    cases hv : Block.split? vector with
    | none => simp [setup, hk, hv]
    | some blocks =>
      match blocks with
      | [] | [_] | _ :: _ :: _ => simp [setup, hk, hv]

def encrypt (key : SecretKey) (vector plaintext : Bytes) : Except Error Bytes := do
  let (schedule, block) ← setup key vector
  match Block.split? (Aes.Padding.add plaintext) with
  | some blocks => .ok (Block.join (Aes.Cbc.encrypt schedule block blocks))
  | none => .error .brokenBlocks

def decrypt (key : SecretKey) (vector ciphertext : Bytes) : Except Error Bytes := do
  let (schedule, block) ← setup key vector
  match Block.split? ciphertext with
  | none | some [] => .error (.ciphertextLength ciphertext.length)
  | some blocks =>
    match Aes.Padding.remove? (Block.join (Aes.Cbc.decrypt schedule block blocks)) with
    | some plaintext => .ok plaintext
    | none => .error .invalidPadding

end Aes256Cbc

/-- The scheme with a name. -/
def EncryptionScheme.read (name : String) : Except Error EncryptionScheme :=
  (ofName? name).elim (.error (.unknownEncryptionScheme name)) .ok

def encrypt (master : SecretKey) (scheme : EncryptionScheme) (vector plaintext : Bytes) :
    Except Error Bytes :=
  match scheme with
  | .none => .error (.unsupportedScheme .none)
  | .aes256Cbc => do
    let key ← master.derive scheme.purpose
    Aes256Cbc.encrypt key vector plaintext

def decrypt (master : SecretKey) (scheme : EncryptionScheme) (vector ciphertext : Bytes) :
    Except Error Bytes :=
  match scheme with
  | .none => .error (.unsupportedScheme .none)
  | .aes256Cbc => do
    let key ← master.derive scheme.purpose
    Aes256Cbc.decrypt key vector ciphertext

end MessageCrypto
