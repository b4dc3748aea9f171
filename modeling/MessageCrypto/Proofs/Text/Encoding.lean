import MessageCrypto.Bytes

/-! # The bytes of a text

A text is told by its bytes in UTF-8. Writing it in lower case changes these one by one: a character
beyond ASCII has no byte below 128, so none that could be taken for a letter.

* `ofString_injective`: texts with the same bytes are the same.
* `ofString_toLower`: the bytes of a text in lower case. -/

namespace MessageCrypto.Bytes

theorem ofString_injective : Function.Injective ofString := by
  intro s t h
  have hencode : s.toList.utf8Encode = t.toList.utf8Encode := congrArg List.toByteArray h
  rw [String.utf8Encode_toList, String.utf8Encode_toList] at hencode
  exact String.toByteArray_inj.1 hencode

/-! ### Lower case -/

/-- A byte in lower case, if it is a capital letter. -/
def lower (x : UInt8) : UInt8 := if 65 ≤ x ∧ x ≤ 90 then x + 32 else x

theorem lower_of_le {x : UInt8} (h : 128 ≤ x.toNat) : lower x = x := by
  refine if_neg fun hx => ?_
  have hle : x.toNat ≤ 90 := UInt8.le_iff_toNat_le.1 hx.2
  omega

/-- A character beyond ASCII is made of bytes beyond ASCII. -/
theorem le_of_mem_utf8EncodeChar {c : Char} {x : UInt8} (hc : 128 ≤ c.toNat)
    (h : x ∈ String.utf8EncodeChar c) : 128 ≤ x.toNat := by
  have hbyte {n : Nat} (hn : 128 ≤ n ∧ n < 256) (hx : x = UInt8.ofNat n) : 128 ≤ x.toNat := by
    rw [hx, UInt8.toNat_ofNat_of_lt' hn.2]
    exact hn.1
  have hval : ¬ c.val.toNat ≤ 127 := Nat.not_le.2 hc
  simp only [String.utf8EncodeChar, if_neg hval] at h
  split at h
  · simp only [List.mem_cons, List.not_mem_nil, or_false] at h
    obtain hx | hx := h <;> exact hbyte (by omega) hx
  split at h
  · simp only [List.mem_cons, List.not_mem_nil, or_false] at h
    obtain hx | hx | hx := h <;> exact hbyte (by omega) hx
  · simp only [List.mem_cons, List.not_mem_nil, or_false] at h
    obtain hx | hx | hx | hx := h <;> exact hbyte (by omega) hx

theorem utf8EncodeChar_toLower (c : Char) :
    String.utf8EncodeChar c.toLower = (String.utf8EncodeChar c).map lower := by
  by_cases hc : c.toNat < 128
  · have hall : ∀ k : Fin 128, String.utf8EncodeChar (Char.ofNat k).toLower =
        (String.utf8EncodeChar (Char.ofNat k)).map lower := by decide +kernel
    simpa using hall ⟨c.toNat, hc⟩
  · have hbeyond : 128 ≤ c.toNat := Nat.le_of_not_lt hc
    have hsame : c.toLower = c := by
      refine dif_neg fun hletter => ?_
      have hle : c.toNat ≤ 90 := UInt32.le_iff_toNat_le.1 hletter.2
      omega
    rw [hsame, List.map_congr_left fun x hx => lower_of_le (le_of_mem_utf8EncodeChar hbeyond hx),
      List.map_id']

theorem toList_toLower (s : String) : s.toLower.toList = s.toList.map Char.toLower :=
  String.toList_map

theorem ofString_toLower (s : String) : ofString s.toLower = (ofString s).map lower := by
  simp only [ofString, toList_toLower, List.flatMap_map, List.map_flatMap, utf8EncodeChar_toLower]

end MessageCrypto.Bytes
