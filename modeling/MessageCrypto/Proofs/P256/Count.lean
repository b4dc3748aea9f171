import Mathlib.GroupTheory.Perm.Cycle.Type
import MessageCrypto.Proofs.P256.Encoding
import MessageCrypto.Proofs.P256.Order

/-! # The number of points

A finite point is told by its `x` and the parity of its `y`, so that there are at most `2 * p + 1`
points. The generator has the order `n`, of which three exceed that bound: there are `n` points, or
twice as many. In the second case some point would be its own opposite, and its `y` would be zero.

* `natCard_point`: the group has `n` elements.
* `nsmul_scalar_injective`: a scalar takes different points to different multiples.
* `CurvePoint.x_eq_iff`, `CurvePoint.multiple_x_eq_iff`: two points, and their multiples by one
  scalar, have one `x` if and only if they are equal or opposite. -/

namespace MessageCrypto.P256

/-! ### Opposite points -/

/-- The same `x`, and `y` replaced by `p - y`. -/
structure CurvePoint.IsOpposite (q r : CurvePoint) : Prop where
  x_eq : q.x = r.x
  y_eq : q.y.val = p - r.y.val

namespace CurvePoint

variable {q r : CurvePoint}

theorem ext_iff : q = r ↔ q.x = r.x ∧ q.y = r.y := by
  rcases q with ⟨x, y, h⟩
  rcases r with ⟨x', y', h'⟩
  rw [mk.injEq]

theorem toPoint_injective : Function.Injective toPoint := by
  intro q r h
  rw [toPoint, toPoint, Point.affine.injEq] at h
  exact ext_iff.2 h

theorem isOpposite_iff : q.IsOpposite r ↔ q.x = r.x ∧ q.y = -r.y := by
  rw [Fin.ext_iff (a := q.y), Field.val_neg r.y_ne_zero]
  exact ⟨fun h => ⟨h.1, h.2⟩, fun h => ⟨h.1, h.2⟩⟩

/-- **Two points have one `x`** if and only if they are equal or opposite. -/
theorem x_eq_iff : q.x = r.x ↔ q = r ∨ q.IsOpposite r := by
  rw [ext_iff, isOpposite_iff, ← and_or_left]
  refine ⟨fun hx => ⟨hx, Field.eq_or_eq_neg_of_mul_self ?_⟩, And.left⟩
  rw [mul_self_y, mul_self_y, hx]

/-! ### Points as elements of the group -/

theorem toGroup_inj : q.toGroup = r.toGroup ↔ q = r := by
  rw [← Point.ofGroup_injective.eq_iff, ofGroup_toGroup, ofGroup_toGroup, toPoint_injective.eq_iff]

theorem toGroup_eq_neg_iff : q.toGroup = -r.toGroup ↔ q.IsOpposite r := by
  rw [toGroup, toGroup, WeierstrassCurve.Affine.Point.neg_some,
    WeierstrassCurve.Affine.Point.some.injEq, negY_eq, ← Field.toZMod_neg,
    Field.toZMod.injective.eq_iff, Field.toZMod.injective.eq_iff, isOpposite_iff]

theorem toGroup_ne_zero (q : CurvePoint) : q.toGroup ≠ 0 :=
  WeierstrassCurve.Affine.Point.some_ne_zero _

theorem eq_zero_or_toGroup (g : curve.Point) : g = 0 ∨ ∃ q : CurvePoint, q.toGroup = g := by
  rcases g with _ | ⟨x, y, h⟩
  · exact .inl rfl
  · obtain ⟨x, rfl⟩ := Field.toZMod.surjective x
    obtain ⟨y, rfl⟩ := Field.toZMod.surjective y
    exact .inr ⟨⟨x, y, nonsingular_iff.1 h⟩, rfl⟩

theorem not_isOpposite_self (q : CurvePoint) : ¬ q.IsOpposite q := by
  rintro ⟨-, hy⟩
  have hlt := q.y.isLt
  have hp := p_mod_two
  omega

end CurvePoint

/-! ### The bound -/

/-- What tells a point: nothing at infinity, else its `x` and the parity of its `y`. -/
def Point.code : Point → Option (Field × Bool)
  | infinity => none
  | affine x y => some (x, y.val % 2 == 0)

theorem code_ofGroup_injective : Function.Injective (Point.code ∘ Point.ofGroup) := by
  intro g h hcode
  simp only [Function.comp_apply] at hcode
  rcases CurvePoint.eq_zero_or_toGroup g with rfl | ⟨q, rfl⟩ <;>
    rcases CurvePoint.eq_zero_or_toGroup h with rfl | ⟨r, rfl⟩ <;>
    simp only [Point.ofGroup_zero, CurvePoint.ofGroup_toGroup, CurvePoint.toPoint, Point.code,
      Option.some.injEq, Prod.mk.injEq, reduceCtorEq] at hcode
  · rfl
  · obtain ⟨hx, hparity⟩ := hcode
    rw [CurvePoint.toGroup_inj]
    refine (CurvePoint.x_eq_iff.1 hx).resolve_right fun hopposite => ?_
    -- opposite points have a `y` of different parity
    rw [(CurvePoint.isOpposite_iff.1 hopposite).2, CurvePoint.parity_neg 0 r.y_ne_zero] at hparity
    exact Bool.not_ne_self _ hparity

instance : Finite curve.Point := Finite.of_injective _ code_ofGroup_injective

theorem natCard_point_le : Nat.card curve.Point ≤ 2 * p + 1 := by
  calc Nat.card curve.Point
      ≤ Nat.card (Option (Field × Bool)) := Nat.card_le_card_of_injective _ code_ofGroup_injective
    _ = 2 * p + 1 := by
      rw [Nat.card_eq_fintype_card, Fintype.card_option, Fintype.card_prod, Fintype.card_fin,
        Fintype.card_bool, mul_comm]

/-! ### The order of the group -/

theorem addOrderOf_ne_two (g : curve.Point) : addOrderOf g ≠ 2 := by
  intro hg
  have hne : g ≠ 0 := by
    rintro rfl
    rw [addOrderOf_zero] at hg
    exact absurd hg (by decide)
  obtain ⟨q, rfl⟩ := (CurvePoint.eq_zero_or_toGroup g).resolve_left hne
  have hzero := addOrderOf_nsmul_eq_zero q.toGroup
  rw [hg, two_nsmul, add_eq_zero_iff_eq_neg, CurvePoint.toGroup_eq_neg_iff] at hzero
  exact q.not_isOpposite_self hzero

/-- **There are `n` points**, the one at infinity included. -/
theorem natCard_point : Nat.card curve.Point = n := by
  have hdvd : n ∣ Nat.card curve.Point := by
    rw [← Point.addOrderOf_generator]
    exact addOrderOf_dvd_natCard _
  obtain ⟨k, hk⟩ := hdvd
  have hpos : 0 < Nat.card curve.Point := Nat.card_pos
  have hle := natCard_point_le
  have hbound : 2 * p + 1 < 3 * n := by decide
  have hk3 : k < 3 := by
    by_contra hge
    have : n * 3 ≤ n * k := Nat.mul_le_mul_left n (not_lt.1 hge)
    omega
  interval_cases k
  · omega
  · rw [hk, mul_one]
  · obtain ⟨g, hg⟩ := exists_prime_addOrderOf_dvd_card' 2 (hk ▸ Dvd.intro_left n rfl)
    exact absurd hg (addOrderOf_ne_two g)

/-- A multiple by a scalar is zero only at zero. -/
theorem nsmul_scalar_eq_zero_iff (d : Scalar) {g : curve.Point} : d.val • g = 0 ↔ g = 0 := by
  refine ⟨fun h => ?_, fun h => by rw [h, nsmul_zero]⟩
  have hn : addOrderOf g ∣ n := natCard_point ▸ addOrderOf_dvd_natCard g
  rcases (Nat.dvd_prime prime_n).1 hn with hone | horder
  · exact AddMonoid.addOrderOf_eq_one_iff.1 hone
  · have hdvd := addOrderOf_dvd_of_nsmul_eq_zero h
    rw [horder] at hdvd
    exact absurd (Nat.le_of_dvd d.pos hdvd) (not_le.2 d.lt)

/-- **A scalar acts injectively** on the group. -/
theorem nsmul_scalar_injective (d : Scalar) :
    Function.Injective fun g : curve.Point => d.val • g := by
  intro g h heq
  rw [← sub_eq_zero, ← nsmul_scalar_eq_zero_iff d, nsmul_sub, sub_eq_zero]
  exact heq

namespace CurvePoint

/-- A multiple of a finite point by a scalar is finite. -/
theorem exists_multiple (d : Scalar) (q : CurvePoint) :
    ∃ s : CurvePoint, s.toGroup = d.val • q.toGroup ∧ s.toPoint = Point.multiple d.val q.toPoint := by
  obtain ⟨s, hs⟩ := (eq_zero_or_toGroup (d.val • q.toGroup)).resolve_left
    (mt (nsmul_scalar_eq_zero_iff d).1 q.toGroup_ne_zero)
  exact ⟨s, hs, by rw [← ofGroup_toGroup, hs, Point.ofGroup_nsmul, ofGroup_toGroup]⟩

/-- **Multiples by one scalar** have one `x` if and only if the points are equal or opposite. -/
theorem multiple_x_eq_iff {d : Scalar} {q r s t : CurvePoint}
    (hs : s.toPoint = Point.multiple d.val q.toPoint)
    (ht : t.toPoint = Point.multiple d.val r.toPoint) : s.x = t.x ↔ q = r ∨ q.IsOpposite r := by
  have toGroup_eq {u v : CurvePoint} (h : v.toPoint = Point.multiple d.val u.toPoint) :
      v.toGroup = d.val • u.toGroup := by
    obtain ⟨w, hgroup, hw⟩ := exists_multiple d u
    rw [toPoint_injective (h.trans hw.symm), hgroup]
  rw [x_eq_iff, ← toGroup_inj, ← toGroup_inj, ← toGroup_eq_neg_iff, ← toGroup_eq_neg_iff,
    toGroup_eq hs, toGroup_eq ht, ← neg_nsmul, (nsmul_scalar_injective d).eq_iff,
    (nsmul_scalar_injective d).eq_iff]

end CurvePoint

end MessageCrypto.P256
