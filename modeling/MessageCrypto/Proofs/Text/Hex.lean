import Mathlib.Data.Nat.Notation
import MessageCrypto.Proofs.Signing.Reading
import MessageCrypto.Text.Hex

/-! # Why a text is not hexadecimal

A text of odd length is refused for that. One of even length is read from the front, two digits at a
time, up to the first byte that is no digit, which is shown together with its place.

* `IsFirstNoDigit`: the first byte that is no digit.
* `decode_eq_error_oddLength_iff`, `decode_eq_error_noDigit_iff`: when either reason is given.
* `noDigit_message_injective`: the text of the reason tells the byte and the place. -/

namespace MessageCrypto.Hex

variable {text bytes : Bytes} {x y : UInt8} {i j p : ℕ}

/-! ### The first byte that is no digit -/

/-- **The byte at the place is no digit, and all bytes in front of it are digits.** -/
structure IsFirstNoDigit (text : Bytes) (x : UInt8) (i : ℕ) : Prop where
  getElem?_eq : text[i]? = some x
  value?_eq : value? x = none
  value?_ne : ∀ y ∈ text.take i, value? y ≠ none

theorem not_isFirstNoDigit_nil : ¬ IsFirstNoDigit [] x i := fun h => nomatch h.getElem?_eq

theorem isFirstNoDigit_zero_iff :
    IsFirstNoDigit (y :: text) x 0 ↔ y = x ∧ value? y = none := by
  constructor
  · rintro ⟨hx, hnone, -⟩
    obtain rfl := Option.some.inj hx
    exact ⟨rfl, hnone⟩
  · rintro ⟨rfl, hnone⟩
    exact ⟨rfl, hnone, nofun⟩

theorem isFirstNoDigit_succ_iff :
    IsFirstNoDigit (y :: text) x (i + 1) ↔ value? y ≠ none ∧ IsFirstNoDigit text x i := by
  constructor
  · rintro ⟨hx, hnone, hdigits⟩
    obtain ⟨hy, hdigits⟩ := List.forall_mem_cons.1 hdigits
    exact ⟨hy, hx, hnone, hdigits⟩
  · rintro ⟨hy, hx, hnone, hdigits⟩
    exact ⟨hx, hnone, List.forall_mem_cons.2 ⟨hy, hdigits⟩⟩

/-! ### Reading pairs -/

theorem length_of_decodePairs (h : decodePairs p text = .ok bytes) :
    text.length = 2 * bytes.length := by
  fun_induction decodePairs p text generalizing bytes
  case case1 =>
    obtain rfl := Except.ok.inj h
    rfl
  case case2 => cases h
  case case3 => cases h
  case case4 => cases h
  case case5 p x y rest high low hhigh hlow ih =>
    obtain ⟨tail, htail, rfl⟩ := map_eq_ok_iff.1 h
    have hrest := ih htail
    simp only [List.length_cons]
    omega

theorem decodePairs_ne_oddLength (heven : text.length % 2 = 0) :
    decodePairs p text ≠ .error .oddLength := by
  fun_induction decodePairs p text
  case case1 => nofun
  case case2 => cases heven
  case case3 => nofun
  case case4 => nofun
  case case5 p x y rest high low hhigh hlow ih =>
    simp only [List.length_cons] at heven
    exact fun h => ih (by omega) (map_eq_error_iff.1 h)

/-- The place is counted from where the reading began. -/
theorem decodePairs_eq_error_noDigit_iff (heven : text.length % 2 = 0) :
    decodePairs p text = .error (.noDigit x i) ↔ ∃ j, i = p + j ∧ IsFirstNoDigit text x j := by
  fun_induction decodePairs p text
  case case1 => simp [not_isFirstNoDigit_nil]
  case case2 => cases heven
  case case3 p y z rest hy =>
    constructor
    · intro h
      obtain ⟨rfl, rfl⟩ := Error.noDigit.inj (Except.error.inj h)
      exact ⟨0, rfl, isFirstNoDigit_zero_iff.2 ⟨rfl, hy⟩⟩
    · rintro ⟨j, rfl, hj⟩
      cases j with
      | zero =>
        obtain ⟨rfl, -⟩ := isFirstNoDigit_zero_iff.1 hj
        rfl
      | succ j => exact absurd hy (isFirstNoDigit_succ_iff.1 hj).1
  case case4 p y z rest high hz hy =>
    have hdigit : value? y ≠ none := Option.ne_none_iff_exists'.2 ⟨high, hy⟩
    constructor
    · intro h
      obtain ⟨rfl, rfl⟩ := Error.noDigit.inj (Except.error.inj h)
      exact ⟨1, rfl, isFirstNoDigit_succ_iff.2 ⟨hdigit, isFirstNoDigit_zero_iff.2 ⟨rfl, hz⟩⟩⟩
    · rintro ⟨j, rfl, hj⟩
      match j with
      | 0 => exact absurd (isFirstNoDigit_zero_iff.1 hj).2 hdigit
      | 1 =>
        obtain ⟨rfl, -⟩ := isFirstNoDigit_zero_iff.1 (isFirstNoDigit_succ_iff.1 hj).2
        rfl
      | j + 2 =>
        exact absurd hz (isFirstNoDigit_succ_iff.1 (isFirstNoDigit_succ_iff.1 hj).2).1
  case case5 p y z rest high low hlow hhigh ih =>
    have hy : value? y ≠ none := Option.ne_none_iff_exists'.2 ⟨high, hhigh⟩
    have hz : value? z ≠ none := Option.ne_none_iff_exists'.2 ⟨low, hlow⟩
    simp only [List.length_cons] at heven
    refine map_eq_error_iff.trans ((ih (by omega)).trans ⟨?_, ?_⟩)
    · rintro ⟨j, rfl, hj⟩
      exact ⟨j + 2, by omega, isFirstNoDigit_succ_iff.2 ⟨hy, isFirstNoDigit_succ_iff.2 ⟨hz, hj⟩⟩⟩
    · rintro ⟨j, rfl, hj⟩
      match j with
      | 0 => exact absurd (isFirstNoDigit_zero_iff.1 hj).2 hy
      | 1 =>
        exact absurd (isFirstNoDigit_zero_iff.1 (isFirstNoDigit_succ_iff.1 hj).2).2 hz
      | j + 2 =>
        exact ⟨j, by omega, (isFirstNoDigit_succ_iff.1 (isFirstNoDigit_succ_iff.1 hj).2).2⟩

/-! ### Reading a text -/

theorem length_of_decode (h : decode text = .ok bytes) : text.length = 2 * bytes.length := by
  unfold decode at h
  split at h
  · cases h
  · exact length_of_decodePairs h

theorem decode_eq_error_oddLength_iff :
    decode text = .error .oddLength ↔ text.length % 2 = 1 := by
  unfold decode
  split
  · next hodd => exact iff_of_true rfl hodd
  · next heven => exact iff_of_false (decodePairs_ne_oddLength (by omega)) heven

theorem decode_eq_error_noDigit_iff : decode text = .error (.noDigit x i) ↔
    text.length % 2 = 0 ∧ IsFirstNoDigit text x i := by
  unfold decode
  split
  · next hodd => simp [hodd]
  · next heven =>
    have heven : text.length % 2 = 0 := by omega
    rw [decodePairs_eq_error_noDigit_iff heven, and_iff_right heven]
    simp only [Nat.zero_add, exists_eq_left']

/-! ### The text of the reason -/

/-- The byte that is shown by some characters. -/
def readShown : List Char → ℕ
  | ['\\', '0'] => 0
  | ['\\', 't'] => 9
  | ['\\', 'n'] => 10
  | ['\\', 'r'] => 13
  | ['\\', c] => c.toNat
  | '\\' :: 'u' :: '\x7b' :: digits =>
    (digits.filterMap fun c => value? (UInt8.ofNat c.toNat)).foldl (16 * · + ·) 0
  | c :: _ => c.toNat
  | [] => 0

theorem readShown_shown (x : UInt8) : readShown (shown x) = x.toNat := by
  have hall : ∀ k : Fin 256, readShown (shown (UInt8.ofNat k)) = k := by decide +kernel
  simpa using hall ⟨x.toNat, x.toNat_lt⟩

theorem quoted_injective {y : UInt8} (h : quoted x = quoted y) : x = y := by
  have hshown : shown x = shown y := by
    simpa [quoted, String.ofList_inj] using h
  rw [← UInt8.toNat_inj, ← readShown_shown, hshown, readShown_shown]

theorem toList_toString (i : ℕ) : (toString i).toList = Nat.toDigits 10 i := by
  rw [Nat.toString_eq_repr, Nat.toList_repr]

theorem toString_injective {i j : ℕ} (h : (toString i).toList = (toString j).toList) : i = j := by
  have hread (k : ℕ) : Nat.ofDigitChars 10 (toString k).toList 0 = k := by
    rw [toList_toString, Nat.ofDigitChars_toDigits (by decide) (by decide)]
  rw [← hread i, h, hread]

theorem space_notMem_toString (i : ℕ) : ' ' ∉ (toString i).toList := by
  intro h
  rw [toList_toString] at h
  cases Nat.isDigit_of_mem_toDigits (by decide) (by decide) h

/-- What stands behind the last occurrence of a character is told by the text. -/
theorem eq_of_append_cons {α : Type} {c : α} {front front' back back' : List α} (h : c ∉ back)
    (h' : c ∉ back') (heq : front ++ c :: back = front' ++ c :: back') :
    front = front' ∧ back = back' := by
  obtain ⟨between, rfl, hback⟩ | ⟨between, rfl, hback⟩ := List.append_eq_append_iff.1 heq
  all_goals
    cases between with
    | nil => simpa [eq_comm] using hback
    | cons d between =>
      obtain ⟨rfl, hback⟩ := List.cons.inj hback
      simp_all

theorem toList_noDigit_message (x : UInt8) (i : ℕ) : (Error.noDigit x i).message.toList =
    ("Invalid character " ++ quoted x ++ " at position").toList ++ ' ' :: (toString i).toList := by
  have hspace : " at position ".toList = " at position".toList ++ [' '] := rfl
  -- the equations of the definition are slow to make, as the byte is shown in so many ways
  change ("Invalid character " ++ quoted x ++ " at position " ++ toString i).toList = _
  simp only [String.toList_append, hspace, List.append_assoc, List.cons_append, List.nil_append]

/-- **The text of the reason tells the byte and the place.** -/
theorem noDigit_message_injective {y : UInt8} {j : ℕ}
    (h : (Error.noDigit x i).message = (Error.noDigit y j).message) : x = y ∧ i = j := by
  rw [← String.toList_inj, toList_noDigit_message, toList_noDigit_message] at h
  obtain ⟨hquoted, hplace⟩ :=
    eq_of_append_cons (space_notMem_toString i) (space_notMem_toString j) h
  rw [String.toList_inj, String.append_left_inj, String.append_right_inj] at hquoted
  exact ⟨quoted_injective hquoted, toString_injective hplace⟩

theorem noDigit_message_ne (x : UInt8) (i : ℕ) :
    (Error.noDigit x i).message ≠ Error.oddLength.message := by
  intro h
  rw [← String.toList_inj, toList_noDigit_message, String.toList_append, String.toList_append] at h
  have hhead : some 'I' = some 'O' := congrArg List.head? h
  exact absurd hhead (by decide)

/-- Different reasons have different texts. -/
theorem message_injective : Function.Injective Error.message := by
  intro e e' h
  cases e with
  | oddLength =>
    cases e' with
    | oddLength => rfl
    | noDigit x i => exact absurd h.symm (noDigit_message_ne x i)
  | noDigit x i =>
    cases e' with
    | oddLength => exact absurd h (noDigit_message_ne x i)
    | noDigit y j =>
      obtain ⟨rfl, rfl⟩ := noDigit_message_injective h
      rfl

end MessageCrypto.Hex
