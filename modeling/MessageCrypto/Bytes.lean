/-!
# Byte strings

Byte strings are lists of bytes. `Bytes.toNat` reads one as a big-endian natural and
`Bytes.ofNat` writes the low digits of a natural at a fixed width; `Bytes.ofString` gives the
UTF-8 bytes of a text.

* `length_ofNat`, `toNat_ofNat`, `ofNat_toNat`: writing at width `w` and reading are inverse
  below the `w`-th power of 256.
* `ofNat_eq_iff`: a number is written as a byte string exactly if that stands for it.
-/

namespace MessageCrypto

/-- A byte string. -/
abbrev Bytes := List UInt8

namespace Bytes

/-- The big-endian value; the empty byte string is zero. -/
def toNat (b : Bytes) : Nat :=
  b.foldl (fun n x => 256 * n + x.toNat) 0

/-- The low `width` base-256 digits of a natural, the most significant first. -/
def ofNat : (width n : Nat) → Bytes
  | 0, _ => []
  | w + 1, n => ofNat w (n / 256) ++ [UInt8.ofNat n]

/-- The UTF-8 bytes of a text. -/
def ofString (s : String) : Bytes :=
  s.toList.flatMap String.utf8EncodeChar

/-- The first `count` pieces of `size` bytes each. -/
def pieces (size : Nat) : (count : Nat) → Bytes → List Bytes
  | 0, _ => []
  | k + 1, b => b.take size :: pieces size k (b.drop size)

/-! ### Fixed-width numbers -/

@[simp] theorem length_ofNat (w n : Nat) : (ofNat w n).length = w := by
  induction w generalizing n with
  | zero => rfl
  | succ w ih => simp [ofNat, ih]

@[simp] theorem toNat_nil : toNat [] = 0 := rfl

@[simp] theorem toNat_concat (b : Bytes) (x : UInt8) :
    toNat (b ++ [x]) = 256 * toNat b + x.toNat := by
  simp [toNat]

theorem toNat_ofNat (w n : Nat) : toNat (ofNat w n) = n % Nat.pow 256 w := by
  induction w generalizing n with
  | zero => simp [ofNat, Nat.mod_one]
  | succ w ih =>
    have h := @Nat.mod_mul 256 (Nat.pow 256 w) n
    have hp : Nat.pow 256 (w + 1) = 256 * Nat.pow 256 w := Nat.mul_comm _ _
    rw [ofNat, toNat_concat, ih, hp, h, UInt8.toNat_ofNat']
    omega

theorem ofNat_toNat (b : Bytes) : ofNat b.length (toNat b) = b := by
  rw [← List.reverse_reverse b]
  generalize b.reverse = r
  induction r with
  | nil => rfl
  | cons x r ih =>
    have hx := x.toNat_lt
    have h256 : UInt8.ofNat (256 * toNat r.reverse + x.toNat) = x := by
      apply UInt8.toNat_inj.1
      simp
    simp only [List.reverse_cons, List.length_append, List.length_singleton, ofNat,
      toNat_concat, h256]
    rw [show (256 * toNat r.reverse + x.toNat) / 256 = toNat r.reverse by omega, ih]

theorem toNat_lt (b : Bytes) : toNat b < Nat.pow 256 b.length := by
  rw [← ofNat_toNat b, toNat_ofNat, length_ofNat]
  exact Nat.mod_lt _ (Nat.pow_pos (Nat.succ_pos 255))

theorem ofNat_eq_iff {w n : Nat} {b : Bytes} (hb : b.length = w) (hn : n < Nat.pow 256 w) :
    ofNat w n = b ↔ n = toNat b := by
  constructor
  · rintro rfl
    rw [toNat_ofNat, Nat.mod_eq_of_lt hn]
  · rintro rfl
    rw [← hb, ofNat_toNat]

/-- Zeros in front do not count. -/
@[simp] theorem toNat_zero_cons (b : Bytes) : toNat (0 :: b) = toNat b := rfl

/-- A number whose highest bit is in the lowest `w` bytes has a place in them. -/
theorem lt_pow_of_log2_lt {w n : Nat} (h : n.log2 < 8 * w) : n < Nat.pow 256 w := by
  have hp : Nat.pow 256 w = 2 ^ (8 * w) := (Nat.pow_mul 2 8 w).symm
  rw [hp]
  exact Nat.lt_of_lt_of_le Nat.lt_log2_self (Nat.pow_le_pow_right (Nat.succ_pos 1) h)

end Bytes

end MessageCrypto
