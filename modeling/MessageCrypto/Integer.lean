import MessageCrypto.Bytes
import MessageCrypto.Error

/-!
# Integers of 32 bits

Integers are written in four bytes, in two's complement, the most significant first. Up to four
bytes are read, short ones as if zeros stood in front, so those are never negative.

* `decode_encode`: reading undoes writing.
-/

namespace MessageCrypto.Integer

/-- The number of bytes of an integer. -/
def size : Nat := 4

def encode (v : Int32) : Bytes := Bytes.ofNat size v.toUInt32.toNat

def decode (bytes : Bytes) : Except Error Int32 :=
  if bytes.length ≤ size then .ok (UInt32.ofNat (Bytes.toNat bytes)).toInt32
  else .error (.integerTooLong bytes.length)

theorem decode_encode (v : Int32) : decode (encode v) = .ok v := by
  have h : Bytes.toNat (encode v) = v.toUInt32.toNat := by
    rw [encode, Bytes.toNat_ofNat]
    exact Nat.mod_eq_of_lt v.toUInt32.toNat_lt
  have hl : (encode v).length ≤ size := by simp [encode]
  rw [decode, if_pos hl, h, UInt32.ofNat_toNat]
  rfl

end MessageCrypto.Integer
