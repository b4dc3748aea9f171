import Mathlib.AlgebraicGeometry.EllipticCurve.Affine.Point
import MessageCrypto.Proofs.P256.Field

/-! # The points of P-256 are a group

The curve has a discriminant other than zero, so that the points that satisfy its equation form a
group. Every element of the group is written as a point, and the chord-and-tangent law on points is
its addition.

* `nonsingular_iff`: the finite elements of the group are the points that satisfy the equation.
* `Point.ofGroup_add`, `Point.ofGroup_nsmul`: sums and multiples of points are those of the group.
-/

namespace MessageCrypto.P256

/-! ### The curve -/

/-- The curve over the residues. -/
def curve : WeierstrassCurve.Affine (ZMod p) where
  a₁ := 0
  a₂ := 0
  a₃ := 0
  a₄ := -3
  a₆ := Field.toZMod b

theorem equation_iff {x y : Field} :
    curve.Equation (Field.toZMod x) (Field.toZMod y) ↔ OnCurve x y := by
  rw [WeierstrassCurve.Affine.equation_iff, OnCurve, ← Field.toZMod.injective.eq_iff]
  simp only [curve, Field.toZMod_add, Field.toZMod_sub, Field.toZMod_mul, Field.toZMod_ofNat]
  ring_nf

theorem discriminant_ne_zero : curve.Δ ≠ 0 := by
  have h : curve.Δ = Field.toZMod (1728 - 432 * b * b) := by
    simp only [Field.toZMod_sub, Field.toZMod_mul, Field.toZMod_ofNat, WeierstrassCurve.Δ,
      WeierstrassCurve.b₂, WeierstrassCurve.b₄, WeierstrassCurve.b₆, WeierstrassCurve.b₈, curve]
    ring
  rw [h, Field.toZMod_ne_zero]
  decide +kernel

theorem nonsingular_iff {x y : Field} :
    curve.Nonsingular (Field.toZMod x) (Field.toZMod y) ↔ OnCurve x y := by
  rw [← WeierstrassCurve.Affine.equation_iff_nonsingular_of_Δ_ne_zero discriminant_ne_zero,
    equation_iff]

/-! ### Slopes -/

section
variable {x₁ y₁ x₂ y₂ : Field}

theorem negY_eq (x y : ZMod p) : curve.negY x y = -y := by
  simp only [WeierstrassCurve.Affine.negY, curve, zero_mul, sub_zero]

theorem toZMod_eq_negY_iff :
    Field.toZMod y₁ = curve.negY (Field.toZMod x₂) (Field.toZMod y₂) ↔ y₁ + y₂ = 0 := by
  rw [negY_eq, eq_neg_iff_add_eq_zero, ← Field.toZMod_add, ← Field.toZMod_zero,
    Field.toZMod.injective.eq_iff]

/-- The slope of the line through points with different `x`. -/
theorem slope_chord (hx : x₁ ≠ x₂) :
    curve.slope (Field.toZMod x₁) (Field.toZMod x₂) (Field.toZMod y₁) (Field.toZMod y₂) =
      Field.toZMod ((y₂ - y₁) * Field.inverse (x₂ - x₁)) := by
  rw [WeierstrassCurve.Affine.slope_of_X_ne (Field.toZMod.injective.ne hx), Field.toZMod_mul,
    Field.toZMod_inverse, Field.toZMod_sub, Field.toZMod_sub, ← div_eq_mul_inv,
    ← neg_sub (Field.toZMod x₂), ← neg_sub (Field.toZMod y₂), neg_div_neg_eq]

/-- The slope of the tangent. -/
theorem slope_tangent (hx : x₁ = x₂) (hy : y₁ + y₂ ≠ 0) :
    curve.slope (Field.toZMod x₁) (Field.toZMod x₂) (Field.toZMod y₁) (Field.toZMod y₂) =
      Field.toZMod ((3 * x₁ * x₁ - 3) * Field.inverse (y₁ + y₁)) := by
  rw [WeierstrassCurve.Affine.slope_of_Y_ne (congrArg _ hx) (mt toZMod_eq_negY_iff.1 hy), negY_eq,
    sub_neg_eq_add]
  simp only [curve, Field.toZMod_mul, Field.toZMod_sub, Field.toZMod_ofNat, Field.toZMod_inverse,
    Field.toZMod_add]
  ring

end

/-! ### Points -/

namespace Point

/-- The point that an element of the group is written as. -/
def ofGroup : curve.Point → Point
  | .zero => infinity
  | .some x y _ => affine (Field.toZMod.symm x) (Field.toZMod.symm y)

theorem ofGroup_zero : ofGroup 0 = infinity := rfl

theorem ofGroup_some {x y : Field}
    (h : curve.Nonsingular (Field.toZMod x) (Field.toZMod y)) :
    ofGroup (.some _ _ h) = affine x y := by
  rw [ofGroup, RingEquiv.symm_apply_apply, RingEquiv.symm_apply_apply]

theorem ofGroup_injective : Function.Injective ofGroup := by
  rintro (_ | ⟨x, y, h⟩) (_ | ⟨x', y', h'⟩) heq
  · rfl
  · cases heq
  · cases heq
  · obtain ⟨hx, hy⟩ := Point.affine.inj heq
    obtain rfl := Field.toZMod.symm.injective hx
    obtain rfl := Field.toZMod.symm.injective hy
    rfl

/-- The third point of a line, in the terms of the group. -/
theorem ofGroup_third {slope x₁ y₁ x₂ : Field} {ℓ : ZMod p} (hℓ : ℓ = Field.toZMod slope)
    (h : curve.Nonsingular (curve.addX (Field.toZMod x₁) (Field.toZMod x₂) ℓ)
      (curve.addY (Field.toZMod x₁) (Field.toZMod x₂) (Field.toZMod y₁) ℓ)) :
    ofGroup (.some _ _ h) = third slope x₁ y₁ x₂ := by
  have hx : curve.addX (Field.toZMod x₁) (Field.toZMod x₂) ℓ =
      Field.toZMod (slope * slope - x₁ - x₂) := by
    simp only [WeierstrassCurve.Affine.addX, curve, hℓ, Field.toZMod_sub, Field.toZMod_mul]
    ring
  have hy : curve.addY (Field.toZMod x₁) (Field.toZMod x₂) (Field.toZMod y₁) ℓ =
      Field.toZMod (slope * (x₁ - (slope * slope - x₁ - x₂)) - y₁) := by
    simp only [WeierstrassCurve.Affine.addY, WeierstrassCurve.Affine.negY,
      WeierstrassCurve.Affine.negAddY, WeierstrassCurve.Affine.addX, curve, hℓ, Field.toZMod_sub,
      Field.toZMod_mul]
    ring
  rw [ofGroup, third, hx, hy, RingEquiv.symm_apply_apply, RingEquiv.symm_apply_apply]

theorem ofGroup_add (g h : curve.Point) : ofGroup (g + h) = add (ofGroup g) (ofGroup h) := by
  rcases g with _ | ⟨x₁, y₁, h₁⟩
  · rfl
  rcases h with _ | ⟨x₂, y₂, h₂⟩
  · rfl
  obtain ⟨x₁, rfl⟩ := Field.toZMod.surjective x₁
  obtain ⟨y₁, rfl⟩ := Field.toZMod.surjective y₁
  obtain ⟨x₂, rfl⟩ := Field.toZMod.surjective x₂
  obtain ⟨y₂, rfl⟩ := Field.toZMod.surjective y₂
  rw [ofGroup_some, ofGroup_some, add]
  by_cases hx : x₁ = x₂
  · rw [if_pos hx]
    have hxZ : Field.toZMod x₁ = Field.toZMod x₂ := congrArg _ hx
    by_cases hy : y₁ + y₂ = 0
    · rw [if_pos hy, WeierstrassCurve.Affine.Point.add_of_Y_eq hxZ (toZMod_eq_negY_iff.2 hy),
        ofGroup_zero]
    · rw [if_neg hy, WeierstrassCurve.Affine.Point.add_of_Y_ne (mt toZMod_eq_negY_iff.1 hy)]
      exact ofGroup_third (slope_tangent hx hy) _
  · have hxZ : Field.toZMod x₁ ≠ Field.toZMod x₂ := Field.toZMod.injective.ne hx
    rw [if_neg hx, WeierstrassCurve.Affine.Point.add_of_X_ne hxZ]
    exact ofGroup_third (slope_chord hx) _

theorem ofGroup_nsmul (k : ℕ) (g : curve.Point) : ofGroup (k • g) = multiple k (ofGroup g) := by
  refine (power_induction (motive := fun a i => a = ofGroup (i • g)) ?_ ?_ ?_ k).symm
  · rw [zero_nsmul, ofGroup_zero]
  · rw [one_nsmul]
  · rintro _ _ i j rfl rfl
    rw [add_nsmul, ofGroup_add]

end Point

/-- A finite point of the curve as an element of the group. -/
def CurvePoint.toGroup (q : CurvePoint) : curve.Point := .some _ _ (nonsingular_iff.2 q.onCurve)

theorem CurvePoint.ofGroup_toGroup (q : CurvePoint) : Point.ofGroup q.toGroup = q.toPoint :=
  Point.ofGroup_some _

end MessageCrypto.P256
