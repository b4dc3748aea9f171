import MessageCrypto.Error
import MessageCrypto.Hash.Sha2

/-!
# Message digests

Hashing a message refuses the empty one, which stands for a message that was never filled in. The
hash functions themselves are total, and signing uses them directly.

* `HashFunction.length_apply`: a digest has as many bytes as `HashFunction.size` says.
-/

namespace MessageCrypto

inductive HashFunction where
  | sha256
  | sha512
  deriving DecidableEq

namespace HashFunction

def name : HashFunction → String
  | sha256 => "sha256"
  | sha512 => "sha512"

def ofName? (s : String) : Option HashFunction := [sha256, sha512].find? (·.name == s)

/-- The number of bytes of a digest. -/
def size : HashFunction → Nat
  | sha256 => 32
  | sha512 => 64

def apply : HashFunction → Bytes → Bytes
  | sha256 => Hash.sha256
  | sha512 => Hash.sha512

theorem length_apply (f : HashFunction) (message : Bytes) : (f.apply message).length = f.size := by
  cases f
  · exact Hash.length_sha256 message
  · exact Hash.length_sha512 message

/-- The digest of a message that is not empty. -/
def digest (f : HashFunction) (message : Bytes) : Except Error Bytes :=
  if message = [] then .error .emptyMessage else .ok (f.apply message)

end HashFunction

end MessageCrypto
