import Mathlib.Data.List.DropRight
import MessageCrypto.Text.Blank

/-! # Texts between blank characters

Trimming cuts off the blank characters at both ends and nothing else. What is left is the one text
that stands between blank characters and itself neither begins nor ends with one.

* `IsTrimmed`: that text, without the functions that find it.
* `isTrimmed_iff`: it is what trimming gives.
* `trim_append`: blank characters around a text that has none. -/

namespace MessageCrypto.Text

variable {s t front back : String}

/-- There are only blank characters. -/
def AllBlank (s : String) : Prop := ∀ c ∈ s.toList, isBlank c

theorem allBlank_empty : AllBlank "" := nofun

/-- **The text stands between blank characters, and neither begins nor ends with one.** -/
structure IsTrimmed (s t : String) : Prop where
  exists_eq : ∃ front back, AllBlank front ∧ AllBlank back ∧ s = front ++ t ++ back
  head : ∀ c ∈ t.toList.head?, isBlank c = false
  last : ∀ c ∈ t.toList.getLast?, isBlank c = false

theorem toList_trim (s : String) :
    (trim s).toList = (s.toList.dropWhile isBlank).rdropWhile isBlank :=
  String.toList_ofList

/-! ### Lists -/

section Lists
variable {α : Type} {p : α → Bool} {l front back : List α}

theorem dropWhile_append (hfront : ∀ a ∈ front, p a) (hl : ∀ a ∈ l.head?, p a = false) :
    (front ++ l).dropWhile p = l := by
  rw [List.dropWhile_append_of_pos hfront]
  cases l with
  | nil => rfl
  | cons a l => rw [List.dropWhile_cons_of_neg (by simp [hl a rfl])]

theorem rdropWhile_append (hback : ∀ a ∈ back, p a) (hl : ∀ a ∈ l.getLast?, p a = false) :
    (l ++ back).rdropWhile p = l := by
  have hdrop : (back.reverse ++ l.reverse).dropWhile p = l.reverse :=
    dropWhile_append (by simpa using hback) (by simpa using hl)
  rw [List.rdropWhile, List.reverse_append, hdrop, List.reverse_reverse]

end Lists

/-! ### Trimming -/

theorem IsTrimmed.trim_eq (h : IsTrimmed s t) : trim s = t := by
  obtain ⟨⟨front, back, hfront, hback, rfl⟩, hhead, hlast⟩ := h
  rw [← String.toList_inj, toList_trim, String.toList_append, String.toList_append,
    List.append_assoc]
  by_cases ht : t.toList = []
  · have hblank : ∀ c ∈ front.toList ++ back.toList, isBlank c :=
      List.forall_mem_append.2 ⟨hfront, hback⟩
    rw [ht, List.nil_append, List.dropWhile_eq_nil_iff.2 hblank, List.rdropWhile_nil]
  · have hfirst : ∀ c ∈ (t.toList ++ back.toList).head?, isBlank c = false := by
      rwa [List.head?_append_of_ne_nil _ ht]
    rw [dropWhile_append hfront hfirst, rdropWhile_append hback hlast]

theorem isTrimmed_trim (s : String) : IsTrimmed s (trim s) where
  exists_eq := by
    refine ⟨.ofList (s.toList.takeWhile isBlank),
      .ofList ((s.toList.dropWhile isBlank).rtakeWhile isBlank), fun c hc => ?_, fun c hc => ?_, ?_⟩
    · rw [String.toList_ofList] at hc
      exact List.mem_takeWhile_imp hc
    · rw [String.toList_ofList] at hc
      exact List.mem_rtakeWhile_imp hc
    · rw [← String.toList_inj, String.toList_append, String.toList_append, toList_trim,
        String.toList_ofList, String.toList_ofList, List.append_assoc,
        List.rdropWhile_append_rtakeWhile, List.takeWhile_append_dropWhile]
  head c hc := by
    rw [toList_trim] at hc
    -- cutting off the end keeps the first character, if there is one left
    have hfirst : (s.toList.dropWhile isBlank).head? = some c := by
      rw [← List.rdropWhile_append_rtakeWhile (p := isBlank) (l := s.toList.dropWhile isBlank),
        List.head?_append, hc, Option.some_or]
    have hnot := List.head?_dropWhile_not isBlank s.toList
    rw [hfirst] at hnot
    exact hnot
  last c hc := by
    rw [toList_trim] at hc
    obtain ⟨hne, rfl⟩ := List.mem_getLast?_eq_getLast hc
    exact Bool.eq_false_iff.2 (List.rdropWhile_last_not _ _ hne)

/-- **What trimming leaves.** -/
theorem isTrimmed_iff : IsTrimmed s t ↔ trim s = t := by
  constructor
  · exact IsTrimmed.trim_eq
  · rintro rfl
    exact isTrimmed_trim s

/-- Blank characters around a text without any are cut off. -/
theorem trim_append (hfront : AllBlank front) (hback : AllBlank back)
    (ht : ∀ c ∈ t.toList, isBlank c = false) : trim (front ++ t ++ back) = t :=
  IsTrimmed.trim_eq ⟨⟨front, back, hfront, hback, rfl⟩,
    fun c hc => ht c (List.mem_of_mem_head? hc), fun c hc => ht c (List.mem_of_mem_getLast? hc)⟩

end MessageCrypto.Text
