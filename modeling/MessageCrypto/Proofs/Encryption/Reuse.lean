import MessageCrypto.Proofs.Encryption.Blocks

/-! # What a reused vector reveals

Under one key and one vector, two ciphertexts agree up to the first block in which the padded
plaintexts differ, and they differ there: whoever sees both learns how far the plaintexts agree. A
ciphertext block depends on what is before it only through the ciphertext block before it, so that
encryption can be cut after any block and continued with the last ciphertext block as the vector.

* `Aes.Cbc.isFirstDifference_encrypt_iff`: chaining keeps the first difference.
* `Aes.Cbc.encrypt_append`: chaining in two parts.
* `Aes256Cbc.reused_vector_reveals_first_difference`: both, for encryption of byte strings. -/

namespace MessageCrypto

open Aes (Block KeySchedule)

/-! ### Chaining -/

namespace Aes.Cbc

section
variable {s : KeySchedule}

theorem some_head_encrypt_iff {before b c : Block} :
    some (s.encrypt (b ^^^ before)) = some (s.encrypt (c ^^^ before)) ↔ some b = some c := by
  rw [Option.some_inj, Option.some_inj, s.encrypt_inj, Block.xor_left_inj]

/-- By induction on the place: until then the blocks before are the same in both chains. -/
theorem isFirstDifference_encrypt_iff {before : Block} {bs cs : List Block} {i : Nat} :
    IsFirstDifference ((encrypt s before bs)[·]?) ((encrypt s before cs)[·]?) i ↔
      IsFirstDifference (bs[·]?) (cs[·]?) i := by
  induction i generalizing before bs cs with
  | zero =>
    rw [isFirstDifference_zero_iff, isFirstDifference_zero_iff]
    refine not_congr ?_
    cases bs with
    | nil =>
      cases cs with
      | nil => exact Iff.rfl
      | cons c cs => exact iff_of_false nofun nofun
    | cons b bs =>
      cases cs with
      | nil => exact iff_of_false nofun nofun
      | cons c cs => exact some_head_encrypt_iff
  | succ i ih =>
    rw [isFirstDifference_succ_iff, isFirstDifference_succ_iff]
    cases bs with
    | nil =>
      cases cs with
      | nil => exact Iff.rfl
      | cons c cs => exact iff_of_false nofun nofun
    | cons b bs =>
      cases cs with
      | nil => exact iff_of_false nofun nofun
      | cons c cs =>
        constructor
        · rintro ⟨hhead, h⟩
          obtain rfl := Option.some.inj (some_head_encrypt_iff.1 hhead)
          exact ⟨rfl, ih.1 h⟩
        · rintro ⟨hhead, h⟩
          obtain rfl := Option.some.inj hhead
          exact ⟨rfl, ih.2 h⟩

end

theorem encrypt_append (s : KeySchedule) (before : Block) (as bs : List Block) :
    encrypt s before (as ++ bs) =
      encrypt s before as ++ encrypt s ((encrypt s before as).getLastD before) bs := by
  induction as generalizing before with
  | nil => rfl
  | cons a as ih => simp only [List.cons_append, encrypt, ih, List.getLastD_cons]

/-- The last block of `n + 1` ciphertext blocks is the block `n`. -/
theorem blockAt_join_encrypt (s : KeySchedule) (before : Block) {as : List Block} {n : Nat}
    (h : as.length = n + 1) :
    Bytes.blockAt (Block.join (encrypt s before as)) n =
      ((encrypt s before as).getLastD before).toBytes := by
  have hl : (encrypt s before as).length = n + 1 := by rw [length_encrypt, h]
  have hget : (encrypt s before as)[n]? = some ((encrypt s before as).getLastD before) := by
    rw [List.getLastD_eq_getLast?, List.getLast?_eq_getElem?, hl, Nat.add_sub_cancel,
      List.getElem?_eq_getElem (by omega), Option.getD_some]
  rw [Block.blockAt_join, hget, Option.elim_some]

end Aes.Cbc

namespace Aes256Cbc

/-! ### Encryption of byte strings -/

/-- Padded plaintexts differ if the plaintexts do, and then they have a first difference. -/
theorem exists_isFirstDifference_add {p p' : Bytes} (hne : p ≠ p') :
    ∃ i, IsFirstDifference (Aes.Padding.add p).blockAt (Aes.Padding.add p').blockAt i := by
  refine exists_isFirstDifference fun h => hne ?_
  obtain ⟨bs, hbs⟩ := Block.exists_split? (Aes.Padding.length_add p)
  obtain ⟨bs', hbs'⟩ := Block.exists_split? (Aes.Padding.length_add p')
  rw [Block.eq_join_of_split? hbs, Block.eq_join_of_split? hbs'] at h
  rw [← Aes.Padding.add_inj, Block.eq_join_of_split? hbs, Block.eq_join_of_split? hbs',
    Block.eq_of_blockAt_join_eq h]

section
variable {key : SecretKey} {s : KeySchedule}
  (hs : ∀ before : Block, setup key before.toBytes = .ok (s, before))
include hs

/-- The ciphertexts part where the padded plaintexts do. -/
theorem exists_encrypt_isFirstDifference_iff (before : Block) (p p' : Bytes) :
    ∃ c c', encrypt key before.toBytes p = .ok c ∧ encrypt key before.toBytes p' = .ok c' ∧
      ∀ i, IsFirstDifference (Aes.Padding.add p).blockAt (Aes.Padding.add p').blockAt i ↔
        IsFirstDifference c.blockAt c'.blockAt i := by
  obtain ⟨c, hc⟩ := exists_encrypt (hs before) p
  obtain ⟨c', hc'⟩ := exists_encrypt (hs before) p'
  refine ⟨c, c', hc, hc', fun i => ?_⟩
  obtain ⟨bs, hp, rfl⟩ := (encrypt_eq_ok_iff (hs before)).1 hc
  obtain ⟨bs', hp', rfl⟩ := (encrypt_eq_ok_iff (hs before)).1 hc'
  rw [hp, hp', Block.isFirstDifference_join_iff, Block.isFirstDifference_join_iff,
    Aes.Cbc.isFirstDifference_encrypt_iff]

/-- Whole blocks in front are encrypted by themselves, and what follows goes on from the last
ciphertext block. -/
theorem exists_encrypt_append (before : Block) {n : Nat} {a : Bytes}
    (ha : a.length = Block.size * (n + 1)) :
    ∃ first : Bytes, first.length = a.length ∧ ∀ b, ∃ rest,
      encrypt key (first.blockAt n) b = .ok rest ∧
        encrypt key before.toBytes (a ++ b) = .ok (first ++ rest) := by
  obtain ⟨as, hsplit, hl⟩ := (Block.exists_split?_iff (n + 1)).2 ha
  obtain rfl := Block.eq_join_of_split? hsplit
  refine ⟨Block.join (Aes.Cbc.encrypt s before as), ?_, fun b => ?_⟩
  · rw [Block.length_join, Block.length_join, Aes.Cbc.length_encrypt]
  · obtain ⟨rest, hrest⟩ := exists_encrypt (hs ((Aes.Cbc.encrypt s before as).getLastD before)) b
    refine ⟨rest, by rw [Aes.Cbc.blockAt_join_encrypt s before hl, hrest], ?_⟩
    obtain ⟨bs, hadd, rfl⟩ := (encrypt_eq_ok_iff (hs _)).1 hrest
    have hmod : (Block.join as).length % 16 = 0 := by rw [ha, Block.size, Nat.mul_mod_right]
    refine (encrypt_eq_ok_iff (hs before)).2 ⟨as ++ bs, ?_, ?_⟩
    · rw [Aes.Padding.add_append hmod, hadd, Block.join_append]
    · rw [Aes.Cbc.encrypt_append, Block.join_append]

end

/-- **A reused vector reveals the first difference**, and no more than that of the blocks before it:
the ciphertexts of two plaintexts agree up to the first block in which the padded plaintexts differ,
and differ there. A ciphertext is continued from its last block: behind whole blocks, a plaintext is
encrypted with the last ciphertext block as its vector. -/
theorem reused_vector_reveals_first_difference {key : SecretKey}
    (hk : key.bytes.length = keySize) {vector : Bytes} (hv : vector.length = vectorSize) :
    (∀ p p', p ≠ p' → ∃ c c', encrypt key vector p = .ok c ∧ encrypt key vector p' = .ok c' ∧
      (∃ i, IsFirstDifference (Aes.Padding.add p).blockAt (Aes.Padding.add p').blockAt i) ∧
      ∀ i, IsFirstDifference (Aes.Padding.add p).blockAt (Aes.Padding.add p').blockAt i ↔
        IsFirstDifference c.blockAt c'.blockAt i) ∧
    ∀ n (a : Bytes), a.length = Block.size * (n + 1) →
      ∃ first : Bytes, first.length = a.length ∧ ∀ b, ∃ rest,
        encrypt key (first.blockAt n) b = .ok rest ∧
          encrypt key vector (a ++ b) = .ok (first ++ rest) := by
  obtain ⟨s, hs⟩ := exists_schedule hk
  obtain ⟨before, rfl⟩ := Block.exists_toBytes hv
  refine ⟨fun p p' hne => ?_, fun n a ha => exists_encrypt_append hs before ha⟩
  obtain ⟨c, c', hc, hc', hfirst⟩ := exists_encrypt_isFirstDifference_iff hs before p p'
  exact ⟨c, c', hc, hc', exists_isFirstDifference_add hne, hfirst⟩

/-- The padding of the shorter plaintext makes the first block of the longer one. -/
theorem reused_vector_reveals_first_difference_prefix :
    ∃ c c', encrypt zeroKey (Block.ofByte 0).toBytes (List.replicate 15 0) = .ok c ∧
      encrypt zeroKey (Block.ofByte 0).toBytes (List.replicate 15 0 ++ [1, 0]) = .ok c' ∧
      IsFirstDifference c.blockAt c'.blockAt 1 := by
  obtain ⟨c, c', hc, hc', -, hfirst⟩ := (reused_vector_reveals_first_difference length_zeroKey
    (Block.length_toBytes (Block.ofByte 0))).1 (List.replicate 15 0)
    (List.replicate 15 0 ++ [1, 0]) (by decide)
  exact ⟨c, c', hc, hc', (hfirst 1).1 ⟨by decide, by decide⟩⟩

end Aes256Cbc

end MessageCrypto
