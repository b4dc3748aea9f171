import MessageCrypto.P256.KeyFormat
import MessageCrypto.Proofs.Der.KeyInfo
import MessageCrypto.Proofs.P256.Root

/-! # Which byte strings stand for a point

A coordinate has one written form. A point has three, and the two that leave `y` out are read
because the root that is wanted can be told from its opposite: no point has `y = 0`, so that one of
the two is even and the other odd, and one is smaller than the other.

* `CurvePoint.ofBytes?_eq_some_iff`, `CurvePoint.ofDer?_eq_some_iff`: what is read as a point, and
  as its container.
* `encodePublicKey_eq`: the container, byte by byte.
* `areCoordinates_iff`, `isPublicKey_iff`: the coordinates of a point in terms of the numbers that
  they stand for, and the keys that have them. -/

namespace MessageCrypto.P256

/-! ### Coordinates -/

namespace Field

variable {x : Field}

theorem val_lt_pow (x : Field) : x.val < Nat.pow 256 size := x.isLt.trans (by decide)

@[simp] theorem length_toBytes (x : Field) : x.toBytes.length = size := Bytes.length_ofNat _ _

@[simp] theorem toNat_toBytes (x : Field) : Bytes.toNat x.toBytes = x.val := by
  rw [toBytes, Bytes.toNat_ofNat, Nat.mod_eq_of_lt (val_lt_pow x)]

theorem toBytes_eq_iff {bytes : Bytes} :
    x.toBytes = bytes ↔ bytes.length = size ∧ x.val = Bytes.toNat bytes := by
  constructor
  · rintro rfl
    exact ⟨length_toBytes x, (toNat_toBytes x).symm⟩
  · rintro ⟨hlength, hval⟩
    exact (Bytes.ofNat_eq_iff hlength (val_lt_pow x)).2 hval

theorem ofNat?_eq_some_iff {k : ℕ} : ofNat? k = some x ↔ x.val = k := by
  unfold ofNat?
  split_ifs with h
  · rw [Option.some.injEq, Fin.ext_iff, eq_comm]
  · simp only [false_iff]
    rintro rfl
    exact h x.isLt

theorem ofBytes?_eq_some_iff {bytes : Bytes} : ofBytes? bytes = some x ↔ bytes = x.toBytes := by
  rw [ofBytes?, Option.ite_none_right_eq_some, ofNat?_eq_some_iff, eq_comm (a := bytes),
    toBytes_eq_iff]

/-- The opposite, of an element other than zero. -/
theorem val_neg (h : x ≠ 0) : (-x).val = p - x.val := by
  rw [Fin.val_neg, if_neg h]

end Field

/-! ### Roots -/

namespace CurvePoint

variable {q : CurvePoint} {x y : Field} {bytes : Bytes}

theorem mul_self_y (q : CurvePoint) : q.y * q.y = q.x.cubic := q.onCurve

theorem ofCoordinates?_eq_some_iff : ofCoordinates? x y = some q ↔ q.x = x ∧ q.y = y := by
  unfold ofCoordinates?
  split_ifs with h
  · rw [Option.some.injEq]
    constructor
    · rintro rfl
      exact ⟨rfl, rfl⟩
    · rintro ⟨rfl, rfl⟩
      rfl
  · simp only [false_iff]
    rintro ⟨rfl, rfl⟩
    exact h q.onCurve

/-- The root that is wanted is found, if of two opposite roots one is wanted. -/
theorem ofRoot?_eq_some_iff {wanted : Field → Bool}
    (hwanted : ∀ y : Field, y ≠ 0 → wanted (-y) = !wanted y) :
    ofRoot? wanted x = some q ↔ q.x = x ∧ wanted q.y = true := by
  simp only [ofRoot?, Option.bind_eq_bind, Option.bind_eq_some_iff, ofCoordinates?_eq_some_iff]
  constructor
  · rintro ⟨r, -, hx, hy⟩
    refine ⟨hx, ?_⟩
    by_cases hr : wanted r
    · rw [hy, if_pos hr, hr]
    · rw [if_neg hr] at hy
      -- if the root were zero, so would be its opposite, the `y` of the point
      have hne : r ≠ 0 := fun h => q.y_ne_zero (by rw [hy, h, neg_zero])
      rw [hy, hwanted r hne, Bool.eq_false_iff.2 hr, Bool.not_false]
  · rintro ⟨rfl, hy⟩
    rcases Field.sqrt?_eq_some_or q.mul_self_y with hr | hr
    · exact ⟨q.y, hr, rfl, by rw [if_pos hy]⟩
    · have hneg : ¬ wanted (-q.y) = true := by
        rw [hwanted _ q.y_ne_zero, hy]
        decide
      exact ⟨-q.y, hr, rfl, by rw [if_neg hneg, neg_neg]⟩

theorem p_mod_two : p % 2 = 1 := by decide

/-- Of two opposite roots one has a given parity, since `p` is odd. -/
theorem parity_neg (k : ℕ) (hy : y ≠ 0) :
    ((-y).val % 2 == k % 2) = !(y.val % 2 == k % 2) := by
  have hlt := y.isLt
  have hp := p_mod_two
  rw [Field.val_neg hy, Bool.eq_iff_iff, Bool.not_eq_true', beq_eq_false_iff_ne, beq_iff_eq]
  omega

/-- Of two opposite roots one is the smaller. -/
theorem smaller_neg (hy : y ≠ 0) :
    decide ((-y).val ≤ (- -y).val) = !decide (y.val ≤ (-y).val) := by
  have hlt := y.isLt
  have hp := p_mod_two
  rw [neg_neg, Field.val_neg hy, Bool.eq_iff_iff, Bool.not_eq_true', decide_eq_true_iff,
    decide_eq_false_iff_not]
  omega

end CurvePoint

/-! ### Points -/

/-- A byte string stands for the point with the coordinates: both of them behind a mark, or `x`
behind a mark for the parity of `y`, or `x` behind a mark if `y` is the smaller of the two roots. -/
def IsEncoding (x y point : Bytes) : Prop :=
  point = 0x04 :: (x ++ y) ∨
    point = (if Bytes.toNat y % 2 = 0 then 0x02 else 0x03) :: x ∨
    point = 0x05 :: x ∧ Bytes.toNat y < p - Bytes.toNat y

theorem not_isEncoding_nil (x y : Bytes) : ¬ IsEncoding x y [] := by
  simp [IsEncoding]

theorem isEncoding_cons_iff {x y rest : Bytes} {mark : UInt8} :
    IsEncoding x y (mark :: rest) ↔
      mark = 0x04 ∧ rest = x ++ y ∨
      (mark = 0x02 ∨ mark = 0x03) ∧ rest = x ∧ Bytes.toNat y % 2 = mark.toNat % 2 ∨
      mark = 0x05 ∧ rest = x ∧ Bytes.toNat y < p - Bytes.toNat y := by
  have hcompressed : mark :: rest = (if Bytes.toNat y % 2 = 0 then 0x02 else 0x03) :: x ↔
      (mark = 0x02 ∨ mark = 0x03) ∧ rest = x ∧ Bytes.toNat y % 2 = mark.toNat % 2 := by
    rw [List.cons_eq_cons]
    constructor
    · rintro ⟨rfl, hrest⟩
      split_ifs with hy
      · exact ⟨.inl rfl, hrest, hy⟩
      · exact ⟨.inr rfl, hrest, Nat.mod_two_ne_zero.1 hy⟩
    · rintro ⟨rfl | rfl, hrest, hy⟩
      · exact ⟨(if_pos hy).symm, hrest⟩
      · exact ⟨(if_neg (Nat.mod_two_ne_zero.2 hy)).symm, hrest⟩
  rw [IsEncoding, hcompressed, List.cons_eq_cons, List.cons_eq_cons, and_assoc]

namespace CurvePoint

variable {q : CurvePoint} {bytes : Bytes}

theorem bind_ofCoordinates?_iff {rest : Bytes} :
    ((Field.ofBytes? (rest.take Field.size)).bind fun x =>
      (Field.ofBytes? (rest.drop Field.size)).bind fun y => ofCoordinates? x y) = some q ↔
      rest = q.x.toBytes ++ q.y.toBytes := by
  simp only [Option.bind_eq_some_iff, Field.ofBytes?_eq_some_iff, ofCoordinates?_eq_some_iff]
  constructor
  · rintro ⟨x, hx, y, hy, rfl, rfl⟩
    rw [← hx, ← hy, List.take_append_drop]
  · intro hrest
    rw [hrest]
    exact ⟨q.x, List.take_left' (Field.length_toBytes q.x), q.y,
      List.drop_left' (Field.length_toBytes q.x), rfl, rfl⟩

theorem bind_ofRoot?_iff {wanted : Field → Bool}
    (hwanted : ∀ y : Field, y ≠ 0 → wanted (-y) = !wanted y) {rest : Bytes} :
    ((Field.ofBytes? rest).bind fun x => ofRoot? wanted x) = some q ↔
      rest = q.x.toBytes ∧ wanted q.y = true := by
  simp only [Option.bind_eq_some_iff, Field.ofBytes?_eq_some_iff, ofRoot?_eq_some_iff hwanted]
  constructor
  · rintro ⟨x, hrest, rfl, hy⟩
    exact ⟨hrest, hy⟩
  · rintro ⟨hrest, hy⟩
    exact ⟨q.x, hrest, rfl, hy⟩

theorem smaller_iff (q : CurvePoint) : q.y.val ≤ (-q.y).val ↔ q.y.val < p - q.y.val := by
  have hp := p_mod_two
  rw [Field.val_neg q.y_ne_zero]
  omega

/-- **What is read as a point** are the byte strings that stand for it. -/
theorem ofBytes?_eq_some_iff :
    ofBytes? bytes = some q ↔ IsEncoding q.x.toBytes q.y.toBytes bytes := by
  cases bytes with
  | nil => simp [ofBytes?, not_isEncoding_nil]
  | cons mark rest =>
    rw [isEncoding_cons_iff, Field.toNat_toBytes, ← smaller_iff]
    simp only [ofBytes?, Option.bind_eq_bind]
    -- the marks in the order in which they are tried, and any other
    split_ifs with h4 h23 h5
    · rw [bind_ofCoordinates?_iff]
      simp [h4]
    · rw [bind_ofRoot?_iff fun y => parity_neg _]
      simp [h4, h23, show mark ≠ 0x05 by rintro rfl; simp at h23]
    · rw [bind_ofRoot?_iff fun y => smaller_neg]
      simp [h5]
    · simp [h4, h23, h5]

end CurvePoint

/-! ### Containers -/

theorem isValid_of_mem_algorithm : ∀ e ∈ algorithm, e.IsValid := by
  simp only [algorithm, List.forall_mem_cons]
  exact ⟨⟨rfl, by decide⟩, ⟨rfl, by decide⟩, by simp⟩

/-- The container of a point, byte by byte: the names of the algorithm and of the curve in a
SEQUENCE of 19 bytes, and a bit string without unused bits. -/
def container (point : Bytes) : Bytes :=
  [0x30, UInt8.ofNat (point.length + 24),
    0x30, 0x13, 0x06, 0x07, 0x2a, 0x86, 0x48, 0xce, 0x3d, 0x02, 0x01,
    0x06, 0x08, 0x2a, 0x86, 0x48, 0xce, 0x3d, 0x03, 0x01, 0x07,
    0x03, UInt8.ofNat (point.length + 1), 0x00] ++ point

theorem encodePublicKey_eq {point : Bytes} (h : point.length ≤ 65) :
    Der.encodePublicKey algorithm point = container point := by
  have hkey : (Der.Element.bitString point).encode =
      [0x03, UInt8.ofNat (point.length + 1), 0x00] ++ point := by
    simp [Der.Element.encode, Der.Element.bitString, Der.Tag.toOctet, Der.lengthOctets,
      show point.length + 1 < 128 by omega]
  have halgorithm : (Der.Element.sequence algorithm).encode =
      [0x30, 0x13, 0x06, 0x07, 0x2a, 0x86, 0x48, 0xce, 0x3d, 0x02, 0x01,
        0x06, 0x08, 0x2a, 0x86, 0x48, 0xce, 0x3d, 0x03, 0x01, 0x07] := rfl
  have hcontent : Der.encode [.sequence algorithm, .bitString point] =
      (Der.Element.sequence algorithm).encode ++ (Der.Element.bitString point).encode := by
    simp [Der.encode]
  have hlength : (Der.encode [.sequence algorithm, .bitString point]).length =
      point.length + 24 := by
    rw [hcontent, halgorithm, hkey]
    simp
  rw [Der.encodePublicKey, Der.Element.encode, Der.Element.sequence]
  simp only [hlength, Der.lengthOctets, if_pos (show point.length + 24 < 0x80 by omega)]
  rw [hcontent, halgorithm, hkey]
  rfl

section
variable {x y : Bytes} (hx : x.length = Field.size) (hy : y.length = Field.size)
include hx hy

theorem length_le_of_isEncoding {point : Bytes} (h : IsEncoding x y point) :
    point.length ≤ 65 := by
  unfold Field.size at hx hy
  rcases h with rfl | rfl | ⟨rfl, -⟩
  · simp [hx, hy]
  · simp [hx]
  · simp [hx]

theorem decodePublicKey?_of_isEncoding {point : Bytes} (h : IsEncoding x y point) :
    Der.decodePublicKey? algorithm (Der.encodePublicKey algorithm point) = some point := by
  refine Der.decodePublicKey?_encodePublicKey (c := 66) (by decide) ?_ (by decide)
    isValid_of_mem_algorithm
  have := length_le_of_isEncoding hx hy h
  omega

end

namespace CurvePoint

variable {q : CurvePoint} {bytes : Bytes}

theorem length_uncompressed (q : CurvePoint) : q.uncompressed.length = 65 := by
  simp [uncompressed, Field.size]

/-- What is read as the container of a point. -/
theorem ofDer?_eq_some_iff : ofDer? bytes = some q ↔
    ∃ point, IsEncoding q.x.toBytes q.y.toBytes point ∧ bytes = container point := by
  have hx := Field.length_toBytes q.x
  have hy := Field.length_toBytes q.y
  simp only [ofDer?, Option.bind_eq_some_iff, ofBytes?_eq_some_iff]
  constructor
  · rintro ⟨point, hdecode, hpoint⟩
    refine ⟨point, hpoint, ?_⟩
    rw [← encodePublicKey_eq (length_le_of_isEncoding hx hy hpoint)]
    exact (Der.decodePublicKey?_eq_some_iff.1 hdecode).1
  · rintro ⟨point, hpoint, rfl⟩
    rw [← encodePublicKey_eq (length_le_of_isEncoding hx hy hpoint)]
    exact ⟨point, decodePublicKey?_of_isEncoding hx hy hpoint, hpoint⟩

theorem ofDer?_toDer (q : CurvePoint) : ofDer? q.toDer = some q := by
  have huncompressed : IsEncoding q.x.toBytes q.y.toBytes q.uncompressed := .inl rfl
  exact ofDer?_eq_some_iff.2 ⟨_, huncompressed, encodePublicKey_eq q.length_uncompressed.le⟩

end CurvePoint

/-! ### The numbers that the bytes stand for -/

open Fin.CommRing in
theorem Field.toZMod_eq_natCast (x : Field) : Field.toZMod x = (x.val : ZMod p) := by
  rw [← map_natCast Field.toZMod x.val, Fin.cast_val_eq_self]

/-- The equation of the curve as a congruence. -/
theorem onCurve_iff_modEq {x y : Field} :
    OnCurve x y ↔ y.val ^ 2 + 3 * x.val ≡ x.val ^ 3 + b.val [MOD p] := by
  rw [OnCurve, ← Field.toZMod.injective.eq_iff, ← ZMod.natCast_eq_natCast_iff]
  simp only [Field.toZMod_add, Field.toZMod_sub, Field.toZMod_mul, Field.toZMod_ofNat,
    Nat.cast_add, Nat.cast_mul, Nat.cast_pow, Nat.cast_ofNat, ← Field.toZMod_eq_natCast]
  constructor
  · intro h
    linear_combination h
  · intro h
    linear_combination h

/-- Byte strings that are the coordinates of a point: 32 bytes each that stand for numbers below
`p`, and these satisfy the equation of the curve modulo `p`. -/
structure AreCoordinates (x y : Bytes) : Prop where
  length_x : x.length = 32
  length_y : y.length = 32
  x_lt : Bytes.toNat x < p
  y_lt : Bytes.toNat y < p
  equation : Bytes.toNat y ^ 2 + 3 * Bytes.toNat x ≡ Bytes.toNat x ^ 3 + b.val [MOD p]

theorem areCoordinates_iff {x y : Bytes} :
    AreCoordinates x y ↔ ∃ q : CurvePoint, q.x.toBytes = x ∧ q.y.toBytes = y := by
  constructor
  · rintro ⟨hlx, hly, hx, hy, hequation⟩
    exact ⟨⟨⟨_, hx⟩, ⟨_, hy⟩, onCurve_iff_modEq.2 hequation⟩,
      Field.toBytes_eq_iff.2 ⟨hlx, rfl⟩, Field.toBytes_eq_iff.2 ⟨hly, rfl⟩⟩
  · rintro ⟨q, rfl, rfl⟩
    refine ⟨Field.length_toBytes q.x, Field.length_toBytes q.y, ?_, ?_, ?_⟩
    · simp
    · simp
    · simpa using onCurve_iff_modEq.1 q.onCurve

/-- A byte string is a public key with the coordinates: its bit string stands for their point. -/
structure IsPublicKey (x y bytes : Bytes) : Prop extends AreCoordinates x y where
  encoded : ∃ point, IsEncoding x y point ∧ bytes = container point

theorem isPublicKey_iff {x y bytes : Bytes} :
    IsPublicKey x y bytes ↔
      ∃ q, CurvePoint.ofDer? bytes = some q ∧ q.x.toBytes = x ∧ q.y.toBytes = y := by
  constructor
  · rintro ⟨hcoordinates, hencoded⟩
    obtain ⟨q, rfl, rfl⟩ := areCoordinates_iff.1 hcoordinates
    exact ⟨q, CurvePoint.ofDer?_eq_some_iff.2 hencoded, rfl, rfl⟩
  · rintro ⟨q, hq, rfl, rfl⟩
    exact ⟨areCoordinates_iff.2 ⟨q, rfl, rfl⟩, CurvePoint.ofDer?_eq_some_iff.1 hq⟩

end MessageCrypto.P256
