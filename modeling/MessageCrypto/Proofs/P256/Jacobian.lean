import Mathlib.Tactic.FieldSimp
import MessageCrypto.Proofs.P256.Field

/-! # Points without inverses

A triple `x`, `y`, `z` stands for the point `x / z²`, `y / z³`, and for the point at infinity if `z`
is zero. The sum of two triples takes products only, so that a multiple of a point takes a single
inverse, at its end.

* `Jacobian.toPoint_add`: the sum of triples stands for the sum of points.
* `Point.multiple_affine`: a multiple is computed with triples. -/

namespace MessageCrypto.P256

/-- The triple of a point. -/
structure Jacobian where
  x : Field
  y : Field
  z : Field

namespace Jacobian

def infinity : Jacobian := ⟨1, 1, 0⟩

def affineX (a : Jacobian) : Field := a.x * Field.inverse (a.z * a.z)

def affineY (a : Jacobian) : Field := a.y * Field.inverse (a.z * a.z * a.z)

/-- The point that a triple stands for. -/
def toPoint (a : Jacobian) : Point :=
  if a.z = 0 then .infinity else .affine a.affineX a.affineY

def double (a : Jacobian) : Jacobian :=
  let yy := a.y * a.y
  let zz := a.z * a.z
  let s := 4 * a.x * yy
  let m := 3 * (a.x - zz) * (a.x + zz)
  let x := m * m - s - s
  ⟨x, m * (s - x) - 8 * yy * yy, 2 * a.y * a.z⟩

/-- The sum of points with different `x`. -/
def chord (a b : Jacobian) : Jacobian :=
  let zz₁ := a.z * a.z
  let zz₂ := b.z * b.z
  let u := a.x * zz₂
  let s := a.y * b.z * zz₂
  let h := b.x * zz₁ - u
  let r := b.y * a.z * zz₁ - s
  let hh := h * h
  let v := u * hh
  let x := r * r - h * hh - v - v
  ⟨x, r * (v - x) - s * (h * hh), h * a.z * b.z⟩

/-- The sum, in the cases of `Point.add`. -/
def add (a b : Jacobian) : Jacobian :=
  if a.z = 0 then b
  else if b.z = 0 then a
  else if a.x * (b.z * b.z) = b.x * (a.z * a.z) then
    if a.y * b.z * (b.z * b.z) + b.y * a.z * (a.z * a.z) = 0 then infinity
    -- not reached on the curve, where a tangent is taken at equal points only
    else if a.y = 0 then ⟨-(a.x + a.x), 0, a.z⟩
    else double a
  else chord a b

theorem toPoint_infinity : infinity.toPoint = .infinity := rfl

theorem toPoint_of_z_eq_zero {a : Jacobian} (h : a.z = 0) : a.toPoint = .infinity := if_pos h

theorem toPoint_of_z_ne_zero {a : Jacobian} (h : a.z ≠ 0) :
    a.toPoint = .affine a.affineX a.affineY := if_neg h

section

open MessageCrypto.P256.Field

theorem toZMod_affineX (a : Jacobian) : toZMod a.affineX = toZMod a.x / toZMod a.z ^ 2 := by
  rw [affineX, toZMod_mul, toZMod_inverse, toZMod_mul, ← sq, ← div_eq_mul_inv]

theorem toZMod_affineY (a : Jacobian) : toZMod a.affineY = toZMod a.y / toZMod a.z ^ 3 := by
  rw [affineY, toZMod_mul, toZMod_inverse, toZMod_mul, toZMod_mul, ← pow_three', ← div_eq_mul_inv]

/-- A triple stands for the third point of a line if its coordinates do up to powers of `z`. -/
theorem toPoint_eq_third {c : Jacobian} {slope x₁ y₁ x₂ : Field} (hz : c.z ≠ 0)
    (hx : toZMod c.x = (toZMod slope ^ 2 - toZMod x₁ - toZMod x₂) * toZMod c.z ^ 2)
    (hy : toZMod c.y = (toZMod slope * (toZMod x₁ - (toZMod slope ^ 2 - toZMod x₁ - toZMod x₂)) -
      toZMod y₁) * toZMod c.z ^ 3) :
    c.toPoint = Point.third slope x₁ y₁ x₂ := by
  have hzZ : toZMod c.z ≠ 0 := toZMod_ne_zero.2 hz
  have haffineX : c.affineX = slope * slope - x₁ - x₂ := by
    apply toZMod.injective
    rw [toZMod_affineX, hx, mul_div_cancel_right₀ _ (pow_ne_zero 2 hzZ), toZMod_sub, toZMod_sub,
      toZMod_mul, sq]
  have haffineY : c.affineY = slope * (x₁ - (slope * slope - x₁ - x₂)) - y₁ := by
    apply toZMod.injective
    rw [toZMod_affineY, hy, mul_div_cancel_right₀ _ (pow_ne_zero 3 hzZ)]
    simp only [toZMod_sub, toZMod_mul, sq]
  rw [toPoint_of_z_ne_zero hz, haffineX, haffineY, Point.third]

theorem toPoint_double {a : Jacobian} (hz : a.z ≠ 0) (hy : a.y ≠ 0) :
    a.double.toPoint = Point.third
      ((3 * a.affineX * a.affineX - 3) * Field.inverse (a.affineY + a.affineY))
      a.affineX a.affineY a.affineX := by
  have hzZ : toZMod a.z ≠ 0 := toZMod_ne_zero.2 hz
  have hyZ : toZMod a.y ≠ 0 := toZMod_ne_zero.2 hy
  have h2 : (2 : ZMod p) ≠ 0 := by
    rw [← toZMod_ofNat, toZMod_ne_zero]
    decide
  have hslope : toZMod ((3 * a.affineX * a.affineX - 3) *
      Field.inverse (a.affineY + a.affineY)) =
      3 * (toZMod a.x ^ 2 - toZMod a.z ^ 4) / (2 * toZMod a.y * toZMod a.z) := by
    simp only [toZMod_mul, toZMod_sub, toZMod_add, toZMod_ofNat, toZMod_inverse, toZMod_affineX,
      toZMod_affineY, ← two_mul]
    field_simp
  refine toPoint_eq_third ?_ ?_ ?_
  · rw [double, ← toZMod_ne_zero]
    simp only [toZMod_mul, toZMod_ofNat]
    exact mul_ne_zero (mul_ne_zero h2 hyZ) hzZ
  · rw [hslope]
    simp only [double, toZMod_mul, toZMod_sub, toZMod_add, toZMod_ofNat, toZMod_affineX]
    field_simp
    ring
  · rw [hslope]
    simp only [double, toZMod_mul, toZMod_sub, toZMod_add, toZMod_ofNat, toZMod_affineX,
      toZMod_affineY]
    field_simp
    ring

theorem toPoint_vertical {a : Jacobian} (hz : a.z ≠ 0) (hy : a.y = 0) :
    toPoint ⟨-(a.x + a.x), 0, a.z⟩ = Point.third
      ((3 * a.affineX * a.affineX - 3) * Field.inverse (a.affineY + a.affineY))
      a.affineX a.affineY a.affineX := by
  have hzZ : toZMod a.z ≠ 0 := toZMod_ne_zero.2 hz
  have haffineY : toZMod a.affineY = 0 := by
    rw [toZMod_affineY, hy, toZMod_zero, zero_div]
  have hslope : toZMod ((3 * a.affineX * a.affineX - 3) *
      Field.inverse (a.affineY + a.affineY)) = 0 := by
    rw [toZMod_mul, toZMod_inverse, toZMod_add, haffineY, add_zero, inv_zero, mul_zero]
  refine toPoint_eq_third hz ?_ ?_
  · rw [hslope, toZMod_affineX, toZMod_neg, toZMod_add]
    field_simp
    ring
  · rw [hslope, haffineY, toZMod_zero, zero_mul, sub_zero, zero_mul]

theorem toPoint_chord {a b : Jacobian} (ha : a.z ≠ 0) (hb : b.z ≠ 0)
    (hx : a.x * (b.z * b.z) ≠ b.x * (a.z * a.z)) :
    (chord a b).toPoint = Point.third
      ((b.affineY - a.affineY) * Field.inverse (b.affineX - a.affineX))
      a.affineX a.affineY b.affineX := by
  have haZ : toZMod a.z ≠ 0 := toZMod_ne_zero.2 ha
  have hbZ : toZMod b.z ≠ 0 := toZMod_ne_zero.2 hb
  have hH : toZMod b.x * toZMod a.z ^ 2 - toZMod a.x * toZMod b.z ^ 2 ≠ 0 := by
    rw [sub_ne_zero, sq, sq, ← toZMod_mul, ← toZMod_mul, ← toZMod_mul, ← toZMod_mul, Ne,
      toZMod.injective.eq_iff]
    exact hx.symm
  set H := toZMod b.x * toZMod a.z ^ 2 - toZMod a.x * toZMod b.z ^ 2 with hHdef
  have hdx : toZMod b.x / toZMod b.z ^ 2 - toZMod a.x / toZMod a.z ^ 2 =
      H / (toZMod a.z ^ 2 * toZMod b.z ^ 2) := by
    rw [hHdef]
    field_simp
  have hslope : toZMod ((b.affineY - a.affineY) * Field.inverse (b.affineX - a.affineX)) =
      (toZMod b.y * toZMod a.z ^ 3 - toZMod a.y * toZMod b.z ^ 3) /
        (H * toZMod a.z * toZMod b.z) := by
    simp only [toZMod_mul, toZMod_sub, toZMod_inverse, toZMod_affineX, toZMod_affineY, hdx]
    field_simp
  have hz : toZMod (chord a b).z = H * toZMod a.z * toZMod b.z := by
    simp only [chord, toZMod_mul, toZMod_sub, hHdef]
    ring
  refine toPoint_eq_third ?_ ?_ ?_
  · rw [← toZMod_ne_zero, hz]
    exact mul_ne_zero (mul_ne_zero hH haZ) hbZ
  · rw [hslope, hz]
    simp only [chord, toZMod_mul, toZMod_sub, toZMod_affineX]
    field_simp
    rw [hHdef]
    ring
  · rw [hslope, hz]
    simp only [chord, toZMod_mul, toZMod_sub, toZMod_affineX, toZMod_affineY]
    field_simp
    rw [hHdef]
    ring

theorem toPoint_add (a b : Jacobian) : (add a b).toPoint = Point.add a.toPoint b.toPoint := by
  by_cases ha : a.z = 0
  · rw [add, if_pos ha, toPoint_of_z_eq_zero ha]
    rfl
  by_cases hb : b.z = 0
  · rw [add, if_neg ha, if_pos hb, toPoint_of_z_eq_zero hb, toPoint_of_z_ne_zero ha]
    rfl
  have haZ : toZMod a.z ≠ 0 := toZMod_ne_zero.2 ha
  have hbZ : toZMod b.z ≠ 0 := toZMod_ne_zero.2 hb
  have hx : a.x * (b.z * b.z) = b.x * (a.z * a.z) ↔ a.affineX = b.affineX := by
    rw [← toZMod.injective.eq_iff, ← toZMod.injective.eq_iff, toZMod_affineX, toZMod_affineX,
      div_eq_div_iff (pow_ne_zero 2 haZ) (pow_ne_zero 2 hbZ)]
    simp only [toZMod_mul, sq]
  have hy : a.y * b.z * (b.z * b.z) + b.y * a.z * (a.z * a.z) = 0 ↔
      a.affineY + b.affineY = 0 := by
    rw [← toZMod.injective.eq_iff, ← toZMod.injective.eq_iff, toZMod_zero, toZMod_add,
      toZMod_add, toZMod_affineY, toZMod_affineY,
      div_add_div _ _ (pow_ne_zero 3 haZ) (pow_ne_zero 3 hbZ), div_eq_zero_iff,
      or_iff_left (mul_ne_zero (pow_ne_zero 3 haZ) (pow_ne_zero 3 hbZ))]
    simp only [toZMod_mul]
    ring_nf
  rw [toPoint_of_z_ne_zero ha, toPoint_of_z_ne_zero hb, Point.add, add, if_neg ha, if_neg hb]
  by_cases hxx : a.affineX = b.affineX
  · rw [if_pos (hx.2 hxx), if_pos hxx]
    by_cases hyy : a.affineY + b.affineY = 0
    · rw [if_pos (hy.2 hyy), if_pos hyy, toPoint_infinity]
    · rw [if_neg (mt hy.1 hyy), if_neg hyy, ← hxx]
      by_cases h0 : a.y = 0
      · rw [if_pos h0]
        exact toPoint_vertical ha h0
      · rw [if_neg h0]
        exact toPoint_double ha h0
  · rw [if_neg (mt hx.1 hxx), if_neg hxx]
    exact toPoint_chord ha hb (mt hx.1 hxx)

end

end Jacobian

/-- **A multiple of a finite point**, with a single inverse. -/
theorem Point.multiple_affine (k : ℕ) (x y : Field) :
    Point.multiple k (.affine x y) = (power Jacobian.add .infinity ⟨x, y, 1⟩ k).toPoint := by
  have h1 : Jacobian.toPoint ⟨x, y, 1⟩ = .affine x y := by
    have hx : Jacobian.affineX ⟨x, y, 1⟩ = x := by
      apply Field.toZMod.injective
      rw [Jacobian.toZMod_affineX, Field.toZMod_one, one_pow, div_one]
    have hy : Jacobian.affineY ⟨x, y, 1⟩ = y := by
      apply Field.toZMod.injective
      rw [Jacobian.toZMod_affineY, Field.toZMod_one, one_pow, div_one]
    rw [Jacobian.toPoint_of_z_ne_zero (show (1 : Field) ≠ 0 by decide), hx, hy]
  rw [power_map Jacobian.toPoint Jacobian.toPoint_infinity Jacobian.toPoint_add, h1, multiple]

end MessageCrypto.P256
