import Mathlib.Data.Nat.Find
import MessageCrypto.Proofs.Encryption.RoundTrip

/-! # Byte strings by their blocks

Two byte strings are compared block by block. The block `i` of a byte string is shorter than sixteen
bytes at its end and empty behind it, so a block that is missing differs from one that is there.

* `Aes.Block.blockAt_join_append`: the blocks of a row of blocks with some bytes behind it.
* `IsFirstDifference`: where two byte strings differ first; there is such a place if they differ
  at all (`exists_isFirstDifference`), and for rows of blocks it can be read off the rows
  (`Aes.Block.isFirstDifference_join_iff`).
* `Aes256Cbc.setup_eq_ok_pair_iff`: what the cipher is set up with. -/

namespace MessageCrypto

open Aes (Block KeySchedule)

/-- The block with a number, counted from zero. -/
def Bytes.blockAt (b : Bytes) (i : Nat) : Bytes := (b.drop (Block.size * i)).take Block.size

theorem Bytes.blockAt_nil (i : Nat) : Bytes.blockAt [] i = [] := by
  rw [blockAt, List.drop_nil, List.take_nil]

/-! ### The first difference -/

/-- **The first place** where two sequences differ. -/
structure IsFirstDifference {α : Type} (f g : Nat → α) (i : Nat) : Prop where
  agree : ∀ l < i, f l = g l
  differ : f i ≠ g i

theorem exists_isFirstDifference {α : Type} {f g : Nat → α} (h : f ≠ g) :
    ∃ i, IsFirstDifference f g i := by
  classical
  have hex : ∃ i, f i ≠ g i := Function.ne_iff.1 h
  refine ⟨Nat.find hex, fun l hl => ?_, Nat.find_spec hex⟩
  exact not_not.1 (Nat.find_min hex hl)

theorem isFirstDifference_zero_iff {α : Type} {f g : Nat → α} :
    IsFirstDifference f g 0 ↔ f 0 ≠ g 0 :=
  ⟨IsFirstDifference.differ, fun h => ⟨nofun, h⟩⟩

theorem isFirstDifference_succ_iff {α : Type} {f g : Nat → α} {i : Nat} :
    IsFirstDifference f g (i + 1) ↔
      f 0 = g 0 ∧ IsFirstDifference (fun l => f (l + 1)) (fun l => g (l + 1)) i := by
  constructor
  · intro h
    exact ⟨h.agree 0 (by omega), fun l hl => h.agree (l + 1) (by omega), h.differ⟩
  · rintro ⟨h0, h⟩
    refine ⟨fun l hl => ?_, h.differ⟩
    cases l with
    | zero => exact h0
    | succ l => exact h.agree l (by omega)

/-! ### Rows of blocks -/

namespace Aes.Block

theorem toBytes_injective : Function.Injective toBytes := by
  intro b c h
  have hjoin : join [b] = join [c] := by simpa only [join, List.flatMap_singleton] using h
  exact List.singleton_inj.1 (join_injective hjoin)

theorem toBytes_ne_nil (b : Block) : b.toBytes ≠ [] := List.cons_ne_nil _ _

theorem join_cons (b : Block) (bs : List Block) : join (b :: bs) = b.toBytes ++ join bs := rfl

theorem join_append (bs cs : List Block) : join (bs ++ cs) = join bs ++ join cs :=
  List.flatMap_append

/-- Sixteen bytes are the bytes of a block. -/
theorem exists_toBytes {bytes : Bytes} (h : bytes.length = size) : ∃ b : Block, bytes = b.toBytes := by
  obtain ⟨bs, hbs, hl⟩ := (exists_split?_iff 1).2 (h.trans (Nat.mul_one size).symm)
  obtain ⟨b, rfl⟩ := List.length_eq_one_iff.1 hl
  refine ⟨b, (eq_join_of_split? hbs).trans ?_⟩
  rw [join_cons, join, List.flatMap_nil, List.append_nil]

theorem blockAt_toBytes_append_zero (b : Block) (q : Bytes) :
    Bytes.blockAt (b.toBytes ++ q) 0 = b.toBytes := by
  rw [Bytes.blockAt, Nat.mul_zero, List.drop_zero, ← length_toBytes b, List.take_left]

theorem blockAt_toBytes_append_succ (b : Block) (q : Bytes) (i : Nat) :
    Bytes.blockAt (b.toBytes ++ q) (i + 1) = Bytes.blockAt q i := by
  have hi : size * (i + 1) = b.toBytes.length + size * i := by
    rw [length_toBytes, Nat.mul_succ, Nat.add_comm]
  rw [Bytes.blockAt, hi, List.drop_length_add_append, Bytes.blockAt]

theorem blockAt_join_append (bs : List Block) (q : Bytes) (i : Nat) :
    Bytes.blockAt (join bs ++ q) i = bs[i]?.elim (Bytes.blockAt q (i - bs.length)) toBytes := by
  induction bs generalizing i with
  | nil => rfl
  | cons b bs ih =>
    rw [join_cons, List.append_assoc]
    cases i with
    | zero => rw [blockAt_toBytes_append_zero]; rfl
    | succ i =>
      rw [blockAt_toBytes_append_succ, ih, List.getElem?_cons_succ, List.length_cons,
        Nat.add_sub_add_right]

theorem blockAt_join (bs : List Block) (i : Nat) :
    Bytes.blockAt (join bs) i = bs[i]?.elim [] toBytes := by
  rw [← List.append_nil (join bs), blockAt_join_append, Bytes.blockAt_nil]

theorem blockAt_join_inj {bs cs : List Block} {i : Nat} :
    Bytes.blockAt (join bs) i = Bytes.blockAt (join cs) i ↔ bs[i]? = cs[i]? := by
  rw [blockAt_join, blockAt_join]
  cases bs[i]? with
  | none =>
    cases cs[i]? with
    | none => exact iff_of_true rfl rfl
    | some c => exact iff_of_false (toBytes_ne_nil c).symm nofun
  | some b =>
    cases cs[i]? with
    | none => exact iff_of_false (toBytes_ne_nil b) nofun
    | some c => exact toBytes_injective.eq_iff.trans Option.some_inj.symm

theorem eq_of_blockAt_join_eq {bs cs : List Block}
    (h : Bytes.blockAt (join bs) = Bytes.blockAt (join cs)) : bs = cs :=
  List.ext_getElem? fun i => blockAt_join_inj.1 (congrFun h i)

theorem isFirstDifference_join_iff {bs cs : List Block} {i : Nat} :
    IsFirstDifference (Bytes.blockAt (join bs)) (Bytes.blockAt (join cs)) i ↔
      IsFirstDifference (bs[·]?) (cs[·]?) i := by
  constructor
  · intro h
    exact ⟨fun l hl => blockAt_join_inj.1 (h.agree l hl), mt blockAt_join_inj.2 h.differ⟩
  · intro h
    exact ⟨fun l hl => blockAt_join_inj.2 (h.agree l hl), mt blockAt_join_inj.1 h.differ⟩

/-! ### Blocks of one byte -/

/-- Sixteen times a byte. -/
def ofByte (x : UInt8) : Block := ⟨⟨x, x, x, x⟩, ⟨x, x, x, x⟩, ⟨x, x, x, x⟩, ⟨x, x, x, x⟩⟩

theorem xor_ofByte_zero (b : Block) : b ^^^ ofByte 0 = b := by
  simp only [ofByte, xor_def, Column.xor_def, UInt8.xor_zero]

end Aes.Block

/-! ### The set-up -/

namespace Aes256Cbc

/-- The key alone gives the schedule, and the vector is the bytes of the block before the first. -/
theorem setup_eq_ok_pair_iff {key : SecretKey} {vector : Bytes} {s : KeySchedule} {before : Block} :
    setup key vector = .ok (s, before) ↔
      (Aes.Key.ofBytes? key.bytes).map .ofKey = some s ∧ vector = before.toBytes := by
  have hjoin : vector = before.toBytes ↔ Block.split? vector = some [before] := by
    rw [Block.split?_eq_some_iff]
    exact Iff.rfl
  rw [hjoin]
  unfold setup
  split
  · next hk => simp [hk]
  · next k block hk hv => simp [hk, hv]
  · next k hk hv =>
    refine iff_of_false nofun fun h => ?_
    exact hv _ h.2

/-- A key of the right length has a schedule, for every block before the first. -/
theorem exists_schedule {key : SecretKey} (hk : key.bytes.length = keySize) :
    ∃ s, ∀ before : Block, setup key before.toBytes = .ok (s, before) := by
  obtain ⟨k, hkey⟩ := Option.isSome_iff_exists.1 (Aes.Key.isSome_ofBytes?_iff.2 hk)
  exact ⟨.ofKey k, fun before => setup_eq_ok_pair_iff.2 ⟨by rw [hkey, Option.map_some], rfl⟩⟩

/-- A key of zeros. -/
def zeroKey : SecretKey where
  bytes := List.replicate 32 0
  nonempty h := by cases h

theorem length_zeroKey : zeroKey.bytes.length = keySize := List.length_replicate

end Aes256Cbc

end MessageCrypto
