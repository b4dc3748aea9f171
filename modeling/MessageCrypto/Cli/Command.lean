import MessageCrypto.Digest

/-!
# Commands

What the program can be asked to do. A command holds its byte strings as they were typed; they are
decoded when it runs, so that a wrong one is reported by the command.
-/

namespace MessageCrypto.Cli

/-- The keys that can be generated. -/
inductive KeyKind where
  | aes256
  | ecP256
  | rsa2048
  deriving DecidableEq

namespace KeyKind

def name : KeyKind → String
  | aes256 => "aes256"
  | ecP256 => "ec-p256"
  | rsa2048 => "rsa2048"

def ofName? (s : String) : Option KeyKind := [aes256, ecP256, rsa2048].find? (·.name == s)

end KeyKind

inductive Command where
  | hash (function : HashFunction) (data : String)
  | random (length : Nat)
  | derive (key purpose : String)
  | encrypt (key : String) (scheme : EncryptionScheme) (vector : Option String) (data : String)
  | decrypt (key : String) (scheme : EncryptionScheme) (vector ciphertext : String)
  | keygen (kind : KeyKind)
  | sign (scheme : SignatureScheme) (key data : String)
  | verify (scheme : SignatureScheme) (key signature data : String)
  | purposes
  deriving DecidableEq

end MessageCrypto.Cli
