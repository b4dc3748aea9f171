import MessageCrypto.Proofs.P256.Group
import MessageCrypto.Proofs.P256.Jacobian

/-! # The order of the generator

The generator has the prime order `n`, so that its multiples are those by residues modulo `n`.

* `Point.multiple_generator_eq_iff`: two multiples are equal if and only if their factors are,
  modulo `n`. -/

namespace MessageCrypto.P256

instance : Fact n.Prime := ⟨prime_n⟩

/-- The generator as a finite point of the curve. -/
def CurvePoint.generator : CurvePoint where
  x := 0x6b17d1f2e12c4247f8bce6e563a440f277037d812deb33a0f4a13945d898c296
  y := 0x4fe342e2fe1a7f9b8ee7eb4a7c0f9e162bce33576b315ececbb6406837bf51f5
  onCurve := by decide +kernel

theorem CurvePoint.toPoint_generator : generator.toPoint = Point.generator := rfl

namespace Point

theorem multiple_order : multiple n generator = infinity := by
  rw [generator, multiple_affine]
  decide +kernel

theorem ofGroup_nsmul_generator (k : ℕ) :
    ofGroup (k • CurvePoint.generator.toGroup) = multiple k generator := by
  rw [ofGroup_nsmul, CurvePoint.ofGroup_toGroup, CurvePoint.toPoint_generator]

theorem addOrderOf_generator : addOrderOf CurvePoint.generator.toGroup = n := by
  refine addOrderOf_eq_prime ?_ (WeierstrassCurve.Affine.Point.some_ne_zero _)
  apply ofGroup_injective
  rw [ofGroup_nsmul_generator, multiple_order, ofGroup_zero]

theorem multiple_generator_eq_iff {i j : ℕ} :
    multiple i generator = multiple j generator ↔ i ≡ j [MOD n] := by
  rw [← ofGroup_nsmul_generator, ← ofGroup_nsmul_generator, ofGroup_injective.eq_iff,
    nsmul_eq_nsmul_iff_modEq, addOrderOf_generator]

/-- A multiple of a multiple. -/
theorem multiple_multiple (u d : ℕ) :
    multiple u (multiple d generator) = multiple (u * d) generator := by
  rw [← ofGroup_nsmul_generator d, ← ofGroup_nsmul, ← mul_nsmul', ofGroup_nsmul_generator]

/-- The sum of a multiple of the generator and a multiple of such a multiple. -/
theorem add_multiple_multiple (u v d : ℕ) :
    add (multiple u generator) (multiple v (multiple d generator)) =
      multiple (u + v * d) generator := by
  rw [multiple_multiple, ← ofGroup_nsmul_generator u, ← ofGroup_nsmul_generator (v * d),
    ← ofGroup_add, ← add_nsmul, ofGroup_nsmul_generator]

end Point

end MessageCrypto.P256
