import MessageCrypto.Proofs.Cli.Decoding
import MessageCrypto.Proofs.Text.Digits

/-! # Hexadecimal arguments

An argument is trimmed first and then read as bytes in UTF-8, so lengths and places are counted in
bytes of the trimmed text. If this is not hexadecimal, the report says so with the name of the
argument and gives the reason.

* `hexDecodes_iff`, `exists_hexDecodes_iff`: the bytes that an argument stands for, if any.
* `hexFails_iff`: what is reported if there are none.
* `hex_arguments_are_digit_pairs`: the same of the function that decodes arguments. -/

namespace MessageCrypto.Cli

variable {label value t : String} {bytes : Bytes} {f : Failure}

section Trimmed
variable (ht : Text.IsTrimmed value t)
include ht

theorem hexDecodes_iff : HexDecodes value bytes ↔ Hex.encode bytes = t.toLower := by
  rw [HexDecodes, ht.trim_eq, Hex.decode_ofString_eq_ok_iff]

theorem exists_hexDecodes_iff : (∃ bytes, HexDecodes value bytes) ↔
    (Bytes.ofString t).length % 2 = 0 ∧ ∀ x ∈ Bytes.ofString t, Hex.IsDigit x := by
  simp only [HexDecodes, ht.trim_eq, Hex.exists_decode_eq_ok_iff]

theorem hexFails_iff : HexFails label value f ↔ ∃ e, Hex.IsRefusedFor (Bytes.ofString t) e ∧
    f = { message := label ++ " is not valid hex", cause := some e.message } := by
  simp only [HexFails, ht.trim_eq, Hex.decode_eq_error_iff]

end Trimmed

/-- **Arguments are pairs of digits between blank characters.** Decoding an argument succeeds exactly
if the trimmed text has an even number of bytes and all of them are digits, of either case; that text
in lower case is then what is printed for the bytes, and for no others. What is printed can be typed
again between any blank characters. If decoding fails, the cause is the odd length, or else the first
byte of the trimmed text that is no digit, with its place there; different causes have different
texts. -/
theorem hex_arguments_are_digit_pairs (label value : String) :
    (∃! t, Text.IsTrimmed value t) ∧
    (∀ t, Text.IsTrimmed value t →
      ((∃ bytes, decodeHex label value = .ok bytes) ↔
        (Bytes.ofString t).length % 2 = 0 ∧ ∀ x ∈ Bytes.ofString t, Hex.IsDigit x) ∧
      (∀ bytes, decodeHex label value = .ok bytes ↔ Hex.encode bytes = t.toLower) ∧
      ∀ f, decodeHex label value = .error f ↔ ∃ e, Hex.IsRefusedFor (Bytes.ofString t) e ∧
        f = { message := label ++ " is not valid hex", cause := some e.message }) ∧
    Function.Injective Hex.Error.message ∧
    ∀ bytes front back, Text.AllBlank front → Text.AllBlank back →
      decodeHex label (front ++ Hex.encode bytes ++ back) = .ok bytes := by
  refine ⟨⟨Text.trim value, Text.isTrimmed_trim value, fun t ht => ht.trim_eq.symm⟩,
    fun t ht => ?_, Hex.message_injective, fun bytes front back hfront hback => ?_⟩
  · simp only [decodeHex_eq_ok_iff, decodeHex_eq_error_iff]
    exact ⟨exists_hexDecodes_iff ht, fun _ => hexDecodes_iff ht, fun _ => hexFails_iff ht⟩
  · exact decodeHex_eq_ok_iff.2 (hexDecodes_append hfront hback bytes)

/-- Digits of both cases between blank characters; a letter of two bytes, the first of which is shown
with its place among the bytes behind the blank; an odd length, which is reported before the letter
that is no digit; printed bytes between blank characters beyond ASCII. -/
theorem hex_arguments_are_digit_pairs_accented :
    (Text.IsTrimmed "\u3000 4aFf\n" "4aFf" ∧ Hex.encode [0x4a, 0xff] = "4aFf".toLower ∧
      decodeHex "data" "\u3000 4aFf\n" = .ok [0x4a, 0xff]) ∧
    (Text.IsTrimmed "\u2003a\u00e9b" "a\u00e9b" ∧ decodeHex "iv" "\u2003a\u00e9b" = .error
      { message := "iv is not valid hex", cause := some "Invalid character '\u00c3' at position 1" }) ∧
    (Text.IsTrimmed " 12z" "12z" ∧ decodeHex "key" " 12z" = .error
      { message := "key is not valid hex", cause := some "Odd number of digits" }) ∧
    Text.AllBlank "\u2028" ∧ Text.AllBlank "\t\u0085" ∧
      decodeHex "key" ("\u2028" ++ Hex.encode [0xde, 0xad] ++ "\t\u0085") = .ok [0xde, 0xad] := by
  have hread : Text.IsTrimmed "\u3000 4aFf\n" "4aFf" := Text.isTrimmed_iff.2 rfl
  have hletter : Text.IsTrimmed "\u2003a\u00e9b" "a\u00e9b" := Text.isTrimmed_iff.2 rfl
  have hodd : Text.IsTrimmed " 12z" "12z" := Text.isTrimmed_iff.2 rfl
  have hlower : Hex.encode [0x4a, 0xff] = "4aFf".toLower := by
    rw [← String.toList_inj, Bytes.toList_toLower]
    decide
  have hline : Text.AllBlank "\u2028" := List.forall_mem_singleton.2 rfl
  have hend : Text.AllBlank "\t\u0085" :=
    List.forall_mem_cons.2 ⟨rfl, List.forall_mem_singleton.2 rfl⟩
  have ha : ∀ y ∈ [0x61], Hex.IsDigit y :=
    List.forall_mem_singleton.2 (Hex.isDigit_iff.2 (Option.some_ne_none 10))
  have hbyte : ¬ Hex.IsDigit 0xc3 := fun h => Hex.isDigit_iff.1 h rfl
  refine ⟨⟨hread, hlower, ?_⟩, ⟨hletter, ?_⟩, ⟨hodd, ?_⟩, hline, hend, ?_⟩
  · exact (((hex_arguments_are_digit_pairs "data" _).2.1 _ hread).2.1 _).2 hlower
  · exact (((hex_arguments_are_digit_pairs "iv" _).2.1 _ hletter).2.2 _).2
      ⟨_, @Hex.IsRefusedFor.noDigit [0x61] [0xa9, 0x62] 0xc3 rfl ha hbyte, rfl⟩
  · exact (((hex_arguments_are_digit_pairs "key" _).2.1 _ hodd).2.2 _).2 ⟨_, .oddLength rfl, rfl⟩
  · exact (hex_arguments_are_digit_pairs "key" "").2.2.2 _ _ _ hline hend

end MessageCrypto.Cli
