import MessageCrypto.Proofs.P256.Prime

/-! # The field of P-256 as residues

Field elements are residues modulo a prime, and the inverse that is computed as a power is the
inverse there: equations between field elements are proved as equations between residues.

* `Field.toZMod`, and what it does to each operation. -/

namespace MessageCrypto.P256

instance : Fact p.Prime := ⟨prime_p⟩

open Fin.CommRing in
/-- A field element as a residue. -/
def Field.toZMod : Field ≃+* ZMod p := ZMod.finEquiv p

namespace Field

@[simp] theorem toZMod_add (x y : Field) : toZMod (x + y) = toZMod x + toZMod y :=
  map_add toZMod x y

@[simp] theorem toZMod_sub (x y : Field) : toZMod (x - y) = toZMod x - toZMod y :=
  map_sub toZMod x y

@[simp] theorem toZMod_mul (x y : Field) : toZMod (x * y) = toZMod x * toZMod y :=
  map_mul toZMod x y

@[simp] theorem toZMod_neg (x : Field) : toZMod (-x) = -toZMod x := map_neg toZMod x

@[simp] theorem toZMod_zero : toZMod 0 = 0 := map_zero toZMod

@[simp] theorem toZMod_one : toZMod 1 = 1 := map_one toZMod

@[simp] theorem toZMod_ofNat (k : ℕ) [k.AtLeastTwo] : toZMod ofNat(k) = ofNat(k) :=
  open Fin.CommRing in map_ofNat toZMod k

theorem toZMod_ne_zero {x : Field} : toZMod x ≠ 0 ↔ x ≠ 0 := by
  rw [← toZMod_zero, Ne, toZMod.injective.eq_iff]

@[simp] theorem toZMod_power (x : Field) (k : ℕ) : toZMod (power (· * ·) 1 x k) = toZMod x ^ k := by
  rw [power_map toZMod toZMod_one toZMod_mul, power_eq_pow]

@[simp] theorem toZMod_inverse (x : Field) : toZMod (inverse x) = (toZMod x)⁻¹ := by
  rw [inverse, toZMod_power, pow_sub_two (by decide)]

end Field

end MessageCrypto.P256
