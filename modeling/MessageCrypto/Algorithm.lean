/-!
# Algorithms

The kinds of keys, signatures and encryption, with the names, numbers and labels that messages and
users refer to them by. A label binds a derived key to one use, so that one master key never serves
two algorithms directly.

* `SignatureScheme.ofName?_name`, `EncryptionScheme.ofNumber?_number` and their like: names and
  numbers identify.
-/

namespace MessageCrypto

/-! ### Keys -/

/-- What a key is for. -/
inductive KeyAlgorithm where
  | aes256
  | ecdsa
  | rsa
  deriving DecidableEq

namespace KeyAlgorithm

def all : List KeyAlgorithm := [aes256, ecdsa, rsa]

def name : KeyAlgorithm → String
  | aes256 => "aes-256"
  | ecdsa => "ecdsa"
  | rsa => "rsa"

def ofName? (s : String) : Option KeyAlgorithm := all.find? (·.name == s)

end KeyAlgorithm

/-! ### Signatures -/

inductive SignatureScheme where
  | hmacSha256
  | ecdsaP256Sha256
  | rsa2048Sha256
  deriving DecidableEq

namespace SignatureScheme

/-- The schemes in the order of their numbers. -/
def all : List SignatureScheme := [hmacSha256, ecdsaP256Sha256, rsa2048Sha256]

def number : SignatureScheme → Int
  | hmacSha256 => 1
  | ecdsaP256Sha256 => 2
  | rsa2048Sha256 => 3

def name : SignatureScheme → String
  | hmacSha256 => "hmac-sha256"
  | ecdsaP256Sha256 => "ecdsa-p256-sha256"
  | rsa2048Sha256 => "rsa2048-sha256"

/-- The label of the keys derived for the scheme. -/
def purpose : SignatureScheme → String
  | hmacSha256 => "SIG:1"
  | ecdsaP256Sha256 => "SIG:2"
  | rsa2048Sha256 => "SIG:3"

/-- What the keys of the scheme are for. -/
def keyAlgorithm : SignatureScheme → KeyAlgorithm
  | hmacSha256 => .aes256
  | ecdsaP256Sha256 => .ecdsa
  | rsa2048Sha256 => .rsa

/-- Whether signing and verifying take different keys. -/
def usesKeyPair : SignatureScheme → Bool
  | hmacSha256 => false
  | ecdsaP256Sha256 | rsa2048Sha256 => true

def ofNumber? (k : Int) : Option SignatureScheme := all.find? (·.number == k)

def ofName? (s : String) : Option SignatureScheme := all.find? (·.name == s)

theorem ofName?_name (t : SignatureScheme) : ofName? t.name = some t := by
  cases t <;> rfl

theorem ofNumber?_number (t : SignatureScheme) : ofNumber? t.number = some t := by
  cases t <;> rfl

end SignatureScheme

/-! ### Encryption -/

inductive EncryptionScheme where
  | none
  | aes256Cbc
  deriving DecidableEq

namespace EncryptionScheme

/-- The schemes in the order of their numbers. -/
def all : List EncryptionScheme := [none, aes256Cbc]

def number : EncryptionScheme → Int
  | none => 1
  | aes256Cbc => 2

def name : EncryptionScheme → String
  | none => "none"
  | aes256Cbc => "aes-256-cbc"

/-- The label of the keys derived for the scheme. -/
def purpose : EncryptionScheme → String
  | none => "ENC:1"
  | aes256Cbc => "ENC:2"

def ofNumber? (k : Int) : Option EncryptionScheme := all.find? (·.number == k)

def ofName? (s : String) : Option EncryptionScheme := all.find? (·.name == s)

theorem ofName?_name (t : EncryptionScheme) : ofName? t.name = some t := by
  cases t <;> rfl

theorem ofNumber?_number (t : EncryptionScheme) : ofNumber? t.number = some t := by
  cases t <;> rfl

end EncryptionScheme

end MessageCrypto
