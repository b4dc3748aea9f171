import MessageCrypto.Draw
import MessageCrypto.Key

/-!
# Random bytes, keys and vectors

* `randomBytes`, `SecretKey.generate`, `randomVector?`.
-/

namespace MessageCrypto

/-- Random bytes, at least one of them. -/
def randomBytes (length : Nat) : Draw (Except Error Bytes) :=
  if length = 0 then pure (.error .emptyRandomRequest) else .ok <$> Draw.bytes length

def SecretKey.generate : Draw (Except Error SecretKey) := SecretKey.ofBytes <$> Draw.bytes 32

/-- A fresh vector for a scheme, none if the scheme uses none. -/
def randomVector? : EncryptionScheme → Draw (Option Bytes)
  | .none => pure none
  | .aes256Cbc => some <$> Draw.bytes 16

end MessageCrypto
