import Mathlib.Tactic.LinearCombination
import MessageCrypto.P256.Encoding
import MessageCrypto.Proofs.P256.Field

/-! # Square roots, and points with `y = 0`

The prime of the field is 3 modulo 4, so that `x` to the power of `(p + 1) / 4` is a root of `x` or
`x` has none. A root is determined up to its sign.

A point with `y = 0` has a root `r` of the cubic as its `x`. Polynomials modulo the cubic are three
coefficients, and every one of them has a value at `r`; since `r ^ p = r`, the value of the
`p`-th power of the indeterminate less the indeterminate is zero. That polynomial has an inverse
modulo the cubic, which is written down below: there is no such `r`.

* `Field.sqrt?_eq_some_or`: a square has a root, and the root found is one of its two.
* `CurvePoint.y_ne_zero`: no point has `y = 0`. -/

namespace MessageCrypto.P256

/-! ### Square roots -/

namespace Field

theorem eq_or_eq_neg_of_mul_self {y z : Field} (h : y * y = z * z) : y = z ∨ y = -z := by
  have hZ : toZMod y * toZMod y = toZMod z * toZMod z := by
    rw [← toZMod_mul, ← toZMod_mul, h]
  rcases mul_self_eq_mul_self_iff.1 hZ with hyz | hyz
  · exact .inl (toZMod.injective hyz)
  · exact .inr (toZMod.injective (by rw [hyz, toZMod_neg]))

/-- **A square has a root**, and the one that is found is the given one or its opposite. -/
theorem sqrt?_eq_some_or {x y : Field} (h : y * y = x) :
    sqrt? x = some y ∨ sqrt? x = some (-y) := by
  have hroot : power (· * ·) 1 x ((p + 1) / 4) * power (· * ·) 1 x ((p + 1) / 4) = x := by
    apply toZMod.injective
    rw [toZMod_mul, toZMod_power, ← h, toZMod_mul, ← pow_two, ← pow_two, ← pow_mul, ← pow_mul,
      show 2 * ((p + 1) / 4 * 2) = p + 1 by decide, pow_succ, ZMod.pow_card, pow_two]
  rw [sqrt?, if_pos hroot]
  rcases eq_or_eq_neg_of_mul_self (hroot.trans h.symm) with hr | hr
  · exact .inl (congrArg some hr)
  · exact .inr (congrArg some hr)

end Field

/-! ### Polynomials modulo the cubic -/

/-- The coefficients of a polynomial of degree 2 at most. -/
structure Residue where
  c₀ : Field
  c₁ : Field
  c₂ : Field
  deriving DecidableEq

namespace Residue

/-- The product modulo the cubic, at whose roots `r ^ 3` is `3 * r - b`. -/
def mul (f g : Residue) : Residue :=
  let d₃ := f.c₁ * g.c₂ + f.c₂ * g.c₁
  let d₄ := f.c₂ * g.c₂
  { c₀ := f.c₀ * g.c₀ - b * d₃
    c₁ := f.c₀ * g.c₁ + f.c₁ * g.c₀ + 3 * d₃ - b * d₄
    c₂ := f.c₀ * g.c₂ + f.c₁ * g.c₁ + f.c₂ * g.c₀ + 3 * d₄ }

def one : Residue := ⟨1, 0, 0⟩

/-- The indeterminate. -/
def root : Residue := ⟨0, 1, 0⟩

def sub (f g : Residue) : Residue := ⟨f.c₀ - g.c₀, f.c₁ - g.c₁, f.c₂ - g.c₂⟩

/-- The value at a residue modulo `p`. -/
def eval (r : ZMod p) (f : Residue) : ZMod p :=
  Field.toZMod f.c₀ + Field.toZMod f.c₁ * r + Field.toZMod f.c₂ * r ^ 2

/-- The inverse of the difference of the `p`-th power of the indeterminate and the indeterminate. -/
def inverseOfDifference : Residue where
  c₀ := 0xa969487079f1744798bf0de6fded091b66e9d328eb0645fe5d979d1339b7f47f
  c₁ := 0xa4a08891884100c13323460107a8d28eede4387fa3e6e9bfebec9f6d72d0b5cc
  c₂ := 0x4cde11cf86cb876cd59cf0115813c55af0ecd3cda667d98bb9a347a56aa74a6d

theorem mul_inverseOfDifference :
    mul (sub (power mul one root p) root) inverseOfDifference = one := by
  decide +kernel

section
variable {r : ZMod p}

theorem eval_one : eval r one = 1 := by
  simp [eval, one]

theorem eval_root : eval r root = r := by
  simp [eval, root]

theorem eval_sub (f g : Residue) : eval r (sub f g) = eval r f - eval r g := by
  simp only [eval, sub, Field.toZMod_sub]
  ring

variable (hr : r ^ 3 = 3 * r - Field.toZMod b)
include hr

theorem eval_mul (f g : Residue) : eval r (mul f g) = eval r f * eval r g := by
  have h₄ : r ^ 4 = 3 * r ^ 2 - Field.toZMod b * r := by
    rw [pow_succ, hr]
    ring
  simp only [eval, mul, Field.toZMod_add, Field.toZMod_sub, Field.toZMod_mul, Field.toZMod_ofNat]
  generalize Field.toZMod b = β at hr h₄
  linear_combination
    -(Field.toZMod f.c₁ * Field.toZMod g.c₂ + Field.toZMod f.c₂ * Field.toZMod g.c₁) * hr -
      Field.toZMod f.c₂ * Field.toZMod g.c₂ * h₄

theorem eval_power (k : ℕ) : eval r (power mul one root k) = r ^ k := by
  rw [power_map (eval r) eval_one (eval_mul hr), eval_root, power_eq_pow]

end

/-- The cubic has no root. -/
theorem cube_ne (r : ZMod p) : r ^ 3 ≠ 3 * r - Field.toZMod b := by
  intro hr
  -- as `r ^ p` is `r`, the product has the value zero at `r`, and it is one
  have h := congrArg (eval r) mul_inverseOfDifference
  rw [eval_mul hr, eval_sub, eval_power hr, eval_root, ZMod.pow_card, sub_self, zero_mul,
    eval_one] at h
  exact zero_ne_one h

end Residue

/-- **No point has `y = 0`.** -/
theorem CurvePoint.y_ne_zero (q : CurvePoint) : q.y ≠ 0 := by
  intro hy
  have h := congrArg Field.toZMod q.onCurve
  simp only [hy, Field.toZMod_add, Field.toZMod_sub, Field.toZMod_mul, Field.toZMod_zero,
    Field.toZMod_ofNat] at h
  apply Residue.cube_ne (Field.toZMod q.x)
  linear_combination -h

end MessageCrypto.P256
