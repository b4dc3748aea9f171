import MessageCrypto.Bytes

/-!
# Padding to whole blocks

A byte string is padded by one to sixteen bytes, each of which holds their number, so that its
length becomes a multiple of sixteen. Padding is removed only if every byte of it is right.

* `remove?_eq_some_iff`: among byte strings of whole blocks, removal accepts exactly the padded ones.
* `add_append`, `remove?_append`: only the last block matters.
-/

namespace MessageCrypto.Aes.Padding

/-- The number of bytes to add to a length. -/
def size (length : Nat) : Nat := 16 - length % 16

def add (b : Bytes) : Bytes := b ++ List.replicate (size b.length) (UInt8.ofNat (size b.length))

def remove? (b : Bytes) : Option Bytes := do
  let last ← b.getLast?
  let n := last.toNat
  let kept := b.take (b.length - n)
  if 1 ≤ n ∧ n ≤ 16 ∧ b = kept ++ List.replicate n last then some kept else none

theorem length_add (b : Bytes) : (add b).length = 16 * (b.length / 16 + 1) := by
  simp [add, size]
  omega

theorem remove?_add (b : Bytes) : remove? (add b) = some b := by
  have hn : 1 ≤ size b.length ∧ size b.length ≤ 16 := by unfold size; omega
  have ht : (UInt8.ofNat (size b.length)).toNat = size b.length := by
    rw [UInt8.toNat_ofNat']; omega
  have hl : (add b).getLast? = some (UInt8.ofNat (size b.length)) := by
    rw [add, List.getLast?_append, List.getLast?_replicate]
    simp [show size b.length ≠ 0 by omega]
  have hk : (add b).take ((add b).length - size b.length) = b := by
    simp [add]
  simp only [remove?, hl, Option.bind_eq_bind, Option.bind_some, ht, hk]
  rw [if_pos ⟨hn.1, hn.2, rfl⟩]

theorem eq_add_of_remove? {b p : Bytes} (hb : b.length % 16 = 0) (h : remove? b = some p) :
    b = add p := by
  obtain ⟨last, -, h⟩ := Option.bind_eq_some_iff.1 h
  dsimp only at h
  split at h
  case isTrue hc =>
    obtain ⟨h1, h16, hb'⟩ := hc
    have hp : b.take (b.length - last.toNat) = p := Option.some.inj h
    rw [hp] at hb'
    have hlen := congrArg List.length hb'
    rw [List.length_append, List.length_replicate] at hlen
    have hs : size p.length = last.toNat := by unfold size; omega
    rw [add, hs, UInt8.ofNat_toNat]
    exact hb'
  case isFalse => simp at h

theorem remove?_eq_some_iff {b p : Bytes} (hb : b.length % 16 = 0) :
    remove? b = some p ↔ b = add p :=
  ⟨eq_add_of_remove? hb, fun h => h ▸ remove?_add p⟩

theorem add_inj {a b : Bytes} : add a = add b ↔ a = b := by
  refine ⟨fun h => ?_, fun h => h ▸ rfl⟩
  have hremove := remove?_add a
  rw [h, remove?_add] at hremove
  exact (Option.some.inj hremove).symm

/-! ### Blocks in front -/

theorem add_append {a : Bytes} (ha : a.length % 16 = 0) (b : Bytes) :
    add (a ++ b) = a ++ add b := by
  have hs : size (a.length + b.length) = size b.length := by unfold size; omega
  simp only [add, List.length_append, hs, List.append_assoc]

theorem remove?_append {b : Bytes} (hb : 16 ≤ b.length) (a : Bytes) :
    remove? (a ++ b) = (remove? b).map (a ++ ·) := by
  have hne : b ≠ [] := List.ne_nil_of_length_pos (by omega)
  obtain ⟨last, hlast⟩ := Option.ne_none_iff_exists'.1 (mt List.getLast?_eq_none_iff.1 hne)
  have hlast' : (a ++ b).getLast? = some last := by rw [List.getLast?_append, hlast]; rfl
  simp only [remove?, hlast, hlast', Option.bind_eq_bind, Option.bind_some]
  by_cases hn : last.toNat ≤ 16
  · have htake : (a ++ b).take ((a ++ b).length - last.toNat) =
        a ++ b.take (b.length - last.toNat) := by
      have hl : (a ++ b).length - last.toNat = a.length + (b.length - last.toNat) := by
        rw [List.length_append]; omega
      rw [hl, List.take_length_add_append]
    simp only [htake, List.append_assoc, List.append_cancel_left_eq]
    split <;> rfl
  -- A last byte above sixteen is refused in both, whatever it would leave.
  · rw [if_neg (fun h => hn h.2.1), if_neg (fun h => hn h.2.1)]
    rfl

end MessageCrypto.Aes.Padding
