import MessageCrypto.Power

/-!
# The field of P-256

Numbers below a prime `p` of 256 bits, with inverses and square roots as powers: `p - 2` is the
exponent of the inverse, and `(p + 1) / 4` that of a root because `p` is 3 modulo 4.
-/

namespace MessageCrypto.P256

/-- The prime of the field, `2^256 - 2^224 + 2^192 + 2^96 - 1`. -/
def p : Nat := 0xffffffff00000001000000000000000000000000ffffffffffffffffffffffff

instance : @NeZero Nat Zero.ofOfNat0 p := ⟨Nat.succ_ne_zero _⟩

/-- A field element. -/
abbrev Field := Fin p

namespace Field

/-- The inverse; that of zero is zero. -/
def inverse (x : Field) : Field := power (· * ·) 1 x (p - 2)

/-- A square root, none if there is none. -/
def sqrt? (x : Field) : Option Field :=
  let r := power (· * ·) 1 x ((p + 1) / 4)
  if r * r = x then some r else none

def ofNat? (n : Nat) : Option Field := if h : n < p then some ⟨n, h⟩ else none

end Field

end MessageCrypto.P256
