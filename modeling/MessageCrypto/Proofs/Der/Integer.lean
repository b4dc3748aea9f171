import Mathlib.Data.List.Induction
import Mathlib.Tactic.Ring
import MessageCrypto.Der.Value

/-! # The shortest content of an INTEGER

A number is written with its first bit clear, since a first bit that is set would make it negative,
and with no byte that could be left out. There is one such content for each number: a content of
`w` bytes has its first bit clear if the number is below `2 ^ (8 * w - 1)`, and no byte too many
unless one byte less would have been enough for that.

* `Bytes.toNat_append`, `Bytes.toNat_cons`: the value of bytes in front of others.
* `IsInteger`: the form of a content, said of its bytes.
* `isInteger_iff`: the content that is written is the only one of that form. -/

namespace MessageCrypto

namespace Bytes

theorem toNat_append (a b : Bytes) : toNat (a ++ b) = toNat a * 256 ^ b.length + toNat b := by
  induction b using List.reverseRecOn with
  | nil => simp
  | append_singleton b x ih =>
    rw [← List.append_assoc, toNat_concat, toNat_concat, ih, List.length_append,
      List.length_singleton, pow_succ]
    ring

theorem toNat_cons (x : UInt8) (b : Bytes) :
    toNat (x :: b) = x.toNat * 256 ^ b.length + toNat b := by
  have hx : toNat [x] = x.toNat := by simp [toNat]
  rw [← hx, ← toNat_append, List.singleton_append]

/-- A bound on the first byte is one on the value. -/
theorem toNat_cons_lt_iff {x : UInt8} {b : Bytes} {k : ℕ} :
    toNat (x :: b) < k * 256 ^ b.length ↔ x.toNat < k := by
  have hb : toNat b < 256 ^ b.length := toNat_lt b
  rw [toNat_cons]
  constructor
  · intro h
    by_contra hle
    have := Nat.mul_le_mul_right (256 ^ b.length) (not_lt.1 hle)
    omega
  · intro h
    have := Nat.mul_le_mul_right (256 ^ b.length) (Nat.succ_le_of_lt h)
    rw [Nat.succ_mul] at this
    omega

end Bytes

namespace Der

/-- **The content of an INTEGER** in its shortest form: the bytes of the number, the first bit
clear, and no zero byte in front of a byte whose first bit is clear as well. -/
structure IsInteger (content : Bytes) (k : ℕ) : Prop where
  toNat_eq : Bytes.toNat content = k
  nonneg : ∃ x rest, content = x :: rest ∧ x < 0x80
  shortest : ∀ x rest, content = 0 :: x :: rest → 0x80 ≤ x

/-! ### Lengths -/

theorem two_pow_eq (w : ℕ) : 2 ^ (8 * w + 7) = 128 * 256 ^ w := by
  rw [pow_add, pow_mul]
  ring

/-- A number is written with as many bytes as leave room for a first bit that is clear, and with no
more. -/
theorem length_unsignedContent_iff {w k : ℕ} : (Element.unsignedContent k).length = w + 1 ↔
    k < 128 * 256 ^ w ∧ (w = 0 ∨ 128 * 256 ^ (w - 1) ≤ k) := by
  rw [Element.length_unsignedContent, ← two_pow_eq, ← two_pow_eq]
  rcases Nat.eq_zero_or_pos k with rfl | hpos
  · simp [eq_comm]
  · rw [← Nat.log2_lt hpos.ne', ← Nat.le_log2 hpos.ne']
    omega

theorem eq_unsignedContent_iff {content : Bytes} {k : ℕ} : content = Element.unsignedContent k ↔
    Bytes.toNat content = k ∧ content.length = (Element.unsignedContent k).length := by
  constructor
  · rintro rfl
    exact ⟨Element.toNat_unsignedContent k, rfl⟩
  · rintro ⟨rfl, hlength⟩
    rw [Element.length_unsignedContent] at hlength
    rw [Element.unsignedContent, ← hlength, Bytes.ofNat_toNat]

/-! ### The one content -/

section
variable {x y : UInt8} {rest : Bytes}

theorem nonneg_iff : x < 0x80 ↔ Bytes.toNat (x :: rest) < 128 * 256 ^ rest.length := by
  rw [Bytes.toNat_cons_lt_iff, UInt8.lt_iff_toNat_lt]
  rfl

/-- The first byte is needed if it is not zero, or if the first bit is set without it. -/
theorem shortest_iff :
    (x = 0 → 0x80 ≤ y) ↔ 128 * 256 ^ rest.length ≤ Bytes.toNat (x :: y :: rest) := by
  by_cases hx : x = 0
  · subst hx
    rw [Bytes.toNat_zero_cons, ← not_lt, ← nonneg_iff, UInt8.not_lt]
    exact ⟨fun h => h rfl, fun h _ => h⟩
  · have hpos : x.toNat ≠ 0 := fun h => hx (UInt8.toNat_inj.1 h)
    have hle : 256 ^ (y :: rest).length ≤ x.toNat * 256 ^ (y :: rest).length :=
      Nat.le_mul_of_pos_left _ (Nat.pos_of_ne_zero hpos)
    rw [Bytes.toNat_cons x]
    rw [List.length_cons, pow_succ] at hle ⊢
    simp only [hx, false_imp_iff, true_iff]
    omega

end

/-- **A number has one content of this form**, the one that is written. -/
theorem isInteger_iff {content : Bytes} {k : ℕ} :
    IsInteger content k ↔ content = Element.unsignedContent k := by
  rw [eq_unsignedContent_iff]
  constructor
  · rintro ⟨rfl, ⟨x, rest, rfl, hx⟩, hshortest⟩
    refine ⟨rfl, Eq.symm (length_unsignedContent_iff.2 ⟨nonneg_iff.1 hx, ?_⟩)⟩
    cases rest with
    | nil => exact .inl rfl
    | cons y rest => exact .inr (shortest_iff.1 fun h => hshortest y rest (h ▸ rfl))
  · rintro ⟨rfl, hlength⟩
    cases content with
    | nil => exact absurd hlength (by simp)
    | cons x rest =>
      obtain ⟨hnonneg, hshortest⟩ := length_unsignedContent_iff.1 hlength.symm
      refine ⟨rfl, ⟨x, rest, rfl, nonneg_iff.2 hnonneg⟩, ?_⟩
      intro y rest' heq
      obtain ⟨rfl, rfl⟩ := List.cons.inj heq
      exact shortest_iff.2 (hshortest.resolve_left (by simp)) rfl

end Der

end MessageCrypto
