import Mathlib.Algebra.Group.Defs
import Mathlib.Data.Nat.ModEq
import MessageCrypto.Power

/-! # Powers by squaring are powers

`power` goes through the bits of the exponent from the top. After the bits from `i` on it has
reached the power with exponent `n >>> i`, for every relation that the operation carries from
exponents to their sum; that relation is left open here.

* `power_induction`: such a relation holds of the result and the exponent.
* `power_map`: a map that keeps the operation keeps powers.
* `power_eq_pow`, `powerMod_eq`: in a monoid and for residues it is the power. -/

namespace MessageCrypto

/-- A step from bit `i + 1` to bit `i` doubles the exponent and adds the bit. -/
theorem shiftRight_eq_double (n i : ℕ) :
    n >>> i = n >>> (i + 1) + n >>> (i + 1) + (n.testBit i).toNat := by
  have hb : (n.testBit i).toNat = n >>> i % 2 := by
    rw [Nat.toNat_testBit, Nat.shiftRight_eq_div_pow]
  rw [hb, Nat.shiftRight_succ]
  omega

/-- **Powers by squaring**: what holds at the exponents 0 and 1 and is kept under sums of exponents
holds at every exponent. -/
theorem power_induction {α : Type} {op : α → α → α} {one x : α} {motive : α → ℕ → Prop}
    (zero : motive one 0) (self : motive x 1)
    (sum : ∀ {a b : α} {i j : ℕ}, motive a i → motive b j → motive (op a b) (i + j)) (n : ℕ) :
    motive (power op one x n) n := by
  -- the invariant of the fold, over the bits from `i` to the highest
  have bits (m i : ℕ) (h : i + m = n.log2 + 1) :
      motive ((List.range' i m).foldr
        (fun i acc => if n.testBit i then op (op acc acc) x else op acc acc) one) (n >>> i) := by
    induction m generalizing i with
    | zero =>
      have hn : n < 2 ^ i := by
        rw [show i = n.log2 + 1 by omega]
        exact Nat.lt_log2_self
      rw [Nat.shiftRight_eq_div_pow, Nat.div_eq_of_lt hn]
      exact zero
    | succ m ih =>
      have square := sum (ih (i + 1) (by omega)) (ih (i + 1) (by omega))
      rw [shiftRight_eq_double, List.range'_succ, List.foldr_cons]
      cases n.testBit i with
      | false => exact square
      | true => exact sum square self
  have h := bits (n.log2 + 1) 0 (Nat.zero_add _)
  rw [Nat.shiftRight_zero, ← List.range_eq_range'] at h
  exact h

/-- Powers are kept by what keeps the operation. -/
theorem power_map {α β : Type} {op : α → α → α} {op' : β → β → β} {one x : α} {one' : β}
    (f : α → β) (hone : f one = one') (hop : ∀ a b, f (op a b) = op' (f a) (f b)) (n : ℕ) :
    f (power op one x n) = power op' one' (f x) n := by
  unfold power
  induction List.range (n.log2 + 1) with
  | nil => exact hone
  | cons i is ih =>
    rw [List.foldr_cons, List.foldr_cons, ← ih]
    cases n.testBit i with
    | false => exact hop _ _
    | true => exact (hop _ _).trans (congrArg (op' · (f x)) (hop _ _))

theorem power_eq_pow {M : Type} [Monoid M] (x : M) (n : ℕ) : power (· * ·) 1 x n = x ^ n := by
  refine power_induction (motive := fun a i => a = x ^ i) (pow_zero x).symm (pow_one x).symm ?_ n
  rintro _ _ i j rfl rfl
  exact (pow_add x i j).symm

theorem powerMod_eq (m base n : ℕ) : powerMod m base n = base ^ n % m := by
  refine power_induction (motive := fun a i => a = base ^ i % m) rfl (by rw [pow_one]) ?_ n
  rintro _ _ i j rfl rfl
  rw [pow_add, Nat.mul_mod (base ^ i)]

end MessageCrypto
