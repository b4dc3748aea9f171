import MessageCrypto.Proofs.Text.Encoding
import MessageCrypto.Proofs.Text.Hex

/-! # Which texts are hexadecimal

A text is hexadecimal exactly if it has an even number of bytes and all of them are digits, of either
case. It then is what its bytes are written as, but for the case of the digits, so that it stands for
these bytes alone.

* `IsDigit`: the digits of both cases, listed.
* `IsRefusedFor`, `decode_eq_error_iff`: why the other texts are refused.
* `exists_decode_eq_ok_iff`, `decode_ofString_eq_ok_iff`: the texts that can be read, and the bytes
  that they stand for. -/

namespace MessageCrypto.Hex

variable {text bytes : Bytes} {x : UInt8} {i p k : ℕ} {t : String} {e : Error}

open Bytes (lower)

/-! ### Digits -/

/-- The byte is a digit of either case. -/
def IsDigit (x : UInt8) : Prop := x ∈ Bytes.ofString "0123456789abcdefABCDEF"

instance : DecidablePred IsDigit := fun x =>
  inferInstanceAs (Decidable (x ∈ Bytes.ofString "0123456789abcdefABCDEF"))

theorem isDigit_iff : IsDigit x ↔ value? x ≠ none := by
  have hall : ∀ i : Fin 256, IsDigit (UInt8.ofFin i) ↔ value? (UInt8.ofFin i) ≠ none := by
    decide +kernel
  exact hall x.toFin

theorem value?_lower (x : UInt8) : value? (lower x) = value? x := by
  have hall : ∀ i : Fin 256, value? (lower (UInt8.ofFin i)) = value? (UInt8.ofFin i) := by
    decide +kernel
  exact hall x.toFin

theorem isDigit_lower_iff : IsDigit (lower x) ↔ IsDigit x := by
  rw [isDigit_iff, isDigit_iff, value?_lower]

/-- A digit in lower case is the one that its value is written as. -/
theorem lower_of_value? (h : value? x = some k) :
    k < 16 ∧ lower x = UInt8.ofNat (digit k).toNat := by
  have hall : ∀ i : Fin 256, ∀ k ∈ value? (UInt8.ofFin i),
      k < 16 ∧ lower (UInt8.ofFin i) = UInt8.ofNat (digit k).toNat := by decide +kernel
  exact hall x.toFin k h

theorem isDigit_digit (h : k < 16) : IsDigit (UInt8.ofNat (digit k).toNat) := by
  rw [isDigit_iff, (utf8EncodeChar_digit h).2]
  exact Option.some_ne_none k

theorem isDigit_of_mem_pairs (h : x ∈ bytes.flatMap pair) : IsDigit x := by
  obtain ⟨y, -, hx⟩ := List.mem_flatMap.1 h
  have hy := y.toNat_lt
  simp only [pair, List.mem_cons, List.not_mem_nil, or_false] at hx
  obtain rfl | rfl := hx
  · exact isDigit_digit (by omega)
  · exact isDigit_digit (by omega)

/-! ### Reading -/

theorem pair_ofNat {high low : ℕ} (hhigh : high < 16) (hlow : low < 16) :
    pair (UInt8.ofNat (16 * high + low)) =
      [UInt8.ofNat (digit high).toNat, UInt8.ofNat (digit low).toNat] := by
  have hlt : 16 * high + low < 256 := by omega
  have hdiv : (16 * high + low) / 16 = high := by omega
  have hmod : (16 * high + low) % 16 = low := by omega
  rw [pair, UInt8.toNat_ofNat_of_lt' hlt, hdiv, hmod]

/-- What has been read is written with the same digits, in lower case. -/
theorem map_lower_of_decodePairs (h : decodePairs p text = .ok bytes) :
    text.map lower = bytes.flatMap pair := by
  fun_induction decodePairs p text generalizing bytes
  case case1 =>
    obtain rfl := Except.ok.inj h
    rfl
  case case2 => cases h
  case case3 => cases h
  case case4 => cases h
  case case5 p x y rest high low hlow hhigh ih =>
    obtain ⟨tail, htail, rfl⟩ := map_eq_ok_iff.1 h
    obtain ⟨hx, hxlower⟩ := lower_of_value? hhigh
    obtain ⟨hy, hylower⟩ := lower_of_value? hlow
    simp only [List.map_cons, List.flatMap_cons, ih htail, pair_ofNat hx hy, hxlower, hylower,
      List.cons_append, List.nil_append]

theorem map_lower_of_decode (h : decode text = .ok bytes) :
    text.map lower = bytes.flatMap pair := by
  unfold decode at h
  split at h
  · cases h
  · exact map_lower_of_decodePairs h

theorem digits_of_map_lower (h : text.map lower = bytes.flatMap pair) :
    text.length % 2 = 0 ∧ ∀ x ∈ text, IsDigit x := by
  constructor
  · have hlength := congrArg List.length h
    rw [List.length_map, length_pairs] at hlength
    omega
  · intro x hx
    have hmem : lower x ∈ bytes.flatMap pair := h ▸ List.mem_map_of_mem hx
    exact isDigit_lower_iff.1 (isDigit_of_mem_pairs hmem)

/-! ### Refusing -/

/-- **Why a text is refused**: for an odd length, and else for its first byte that is no digit, which
stands behind as many bytes as its place says. -/
inductive IsRefusedFor : Bytes → Error → Prop
  | oddLength {text : Bytes} (hodd : text.length % 2 = 1) : IsRefusedFor text .oddLength
  | noDigit {front back : Bytes} {x : UInt8} (heven : (front ++ x :: back).length % 2 = 0)
      (hdigits : ∀ y ∈ front, IsDigit y) (hx : ¬ IsDigit x) :
      IsRefusedFor (front ++ x :: back) (.noDigit x front.length)

/-- The text is cut at its first byte that is no digit. -/
theorem isFirstNoDigit_iff : IsFirstNoDigit text x i ↔ ∃ front back, text = front ++ x :: back ∧
    front.length = i ∧ (∀ y ∈ front, IsDigit y) ∧ ¬ IsDigit x := by
  constructor
  · rintro ⟨hx, hnone, hdigits⟩
    obtain ⟨hi, rfl⟩ := List.getElem?_eq_some_iff.1 hx
    refine ⟨text.take i, text.drop (i + 1), ?_, List.length_take_of_le (Nat.le_of_lt hi),
      fun y hy => isDigit_iff.2 (hdigits y hy), fun hdigit => isDigit_iff.1 hdigit hnone⟩
    rw [← List.drop_eq_getElem_cons hi, List.take_append_drop]
  · rintro ⟨front, back, rfl, rfl, hdigits, hx⟩
    refine ⟨by simp, Classical.not_not.1 fun hne => hx (isDigit_iff.2 hne), ?_⟩
    rw [List.take_left]
    exact fun y hy => isDigit_iff.1 (hdigits y hy)

theorem decode_eq_error_iff : decode text = .error e ↔ IsRefusedFor text e := by
  constructor
  · intro h
    cases e with
    | oddLength => exact .oddLength (decode_eq_error_oddLength_iff.1 h)
    | noDigit x i =>
      obtain ⟨heven, hfirst⟩ := decode_eq_error_noDigit_iff.1 h
      obtain ⟨front, back, rfl, rfl, hdigits, hx⟩ := isFirstNoDigit_iff.1 hfirst
      exact .noDigit heven hdigits hx
  · rintro (hodd | ⟨heven, hdigits, hx⟩)
    · exact decode_eq_error_oddLength_iff.2 hodd
    · exact decode_eq_error_noDigit_iff.2
        ⟨heven, isFirstNoDigit_iff.2 ⟨_, _, rfl, rfl, hdigits, hx⟩⟩

/-! ### Which texts can be read -/

theorem IsRefusedFor.not_digits (h : IsRefusedFor text e) :
    ¬ (text.length % 2 = 0 ∧ ∀ x ∈ text, IsDigit x) := by
  rintro ⟨heven, hdigits⟩
  cases h with
  | oddLength hodd => omega
  | noDigit _ _ hx => exact hx (hdigits _ (List.mem_append_right _ List.mem_cons_self))

/-- **A text can be read exactly if it has an even length and all its bytes are digits.** -/
theorem exists_decode_eq_ok_iff :
    (∃ bytes, decode text = .ok bytes) ↔ text.length % 2 = 0 ∧ ∀ x ∈ text, IsDigit x := by
  constructor
  · rintro ⟨bytes, h⟩
    exact digits_of_map_lower (map_lower_of_decode h)
  · intro h
    cases hdecode : decode text with
    | ok bytes => exact ⟨bytes, rfl⟩
    | error e => exact absurd h (decode_eq_error_iff.1 hdecode).not_digits

theorem pairs_injective : Function.Injective fun bytes : Bytes => bytes.flatMap pair := by
  intro bytes other h
  have hread : decodePairs 0 (bytes.flatMap pair) = decodePairs 0 (other.flatMap pair) :=
    congrArg _ h
  rw [decodePairs_pairs, decodePairs_pairs] at hread
  exact Except.ok.inj hread

theorem decode_eq_ok_iff :
    decode text = .ok bytes ↔ text.map lower = bytes.flatMap pair := by
  constructor
  · exact map_lower_of_decode
  · intro h
    obtain ⟨other, hother⟩ := exists_decode_eq_ok_iff.2 (digits_of_map_lower h)
    rw [hother, pairs_injective ((map_lower_of_decode hother).symm.trans h)]

/-- **A text stands for the bytes that it is written for**, but for the case of its digits. -/
theorem decode_ofString_eq_ok_iff :
    decode (Bytes.ofString t) = .ok bytes ↔ encode bytes = t.toLower := by
  rw [decode_eq_ok_iff, ← Bytes.ofString_toLower, ← ofString_encode,
    Bytes.ofString_injective.eq_iff, eq_comm]

end MessageCrypto.Hex
