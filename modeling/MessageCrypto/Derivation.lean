import MessageCrypto.Hash.Hkdf
import MessageCrypto.Key

/-!
# Key derivation

Keys are derived with HKDF. A master key and a purpose give a key of 32 bytes, through a fixed salt
that separates these keys from any other use of the master key.
-/

namespace MessageCrypto

/-- The salt of every derived key: the SHA-256 digest of the name of the protocol. -/
def salt : Bytes := [
  0xbf, 0x9d, 0x2a, 0x53, 0xc6, 0x36, 0x16, 0xd7, 0x5d, 0xb0, 0xa7, 0x16, 0x5b, 0x91, 0xc1, 0xef,
  0x73, 0xe5, 0x37, 0xf2, 0x42, 0x74, 0x05, 0xfa, 0x23, 0x61, 0x0a, 0x4b, 0xe6, 0x57, 0x64, 0x2e]

namespace Derivation

/-- The number of bytes of a derived key. -/
def size : Nat := 32

/-- The pseudorandom key of material that is not empty. -/
def extract (material salt : Bytes) : Except Error Bytes :=
  if material = [] then .error .emptyKeyMaterial else .ok (Hash.Hkdf.extract salt material)

/-- A derived key from material that is not empty, bound to a context. -/
def derive (material salt context : Bytes) : Except Error Bytes := do
  let prk ← extract material salt
  match Hash.Hkdf.expand? prk context size with
  | some output => .ok output
  | none => .error .expansionFailed

end Derivation

/-- The key of a master key for a purpose. -/
def SecretKey.derive (master : SecretKey) (purpose : String) : Except Error SecretKey := do
  SecretKey.ofBytes (← Derivation.derive master.bytes salt (Bytes.ofString purpose))

end MessageCrypto
