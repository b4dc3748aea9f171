import MessageCrypto.Proofs.Encryption.Blocks

/-! # What a replaced block does to the plaintext

The vector and the ciphertext blocks form a chain, in which each plain block is made from a block and
the one before it. A replaced block of the chain garbles its own plain block and changes the next one
by the difference, and nothing else. Padding is in the last plain block, so that decryption does not
fail for a block replaced earlier: a caller has to authenticate the vector and the ciphertext.

* `Aes.Cbc.decryptChain_append_cons`: the plain blocks behind a block do not depend on what is
  before it.
* `Aes256Cbc.decrypt_chain`: decryption over the chain.
* `Aes256Cbc.IsTampered`, `Aes256Cbc.decrypt_replaced`: the effect on the plaintext.
* `Aes256Cbc.vector_unique`: no ciphertext has one plaintext under two vectors.
* `Aes256Cbc.tampering_garbles_and_flips`: both. -/

namespace MessageCrypto

open Aes (Block KeySchedule)

/-! ### Plain blocks of a chain -/

namespace Aes.Cbc

section
variable (s : KeySchedule)

/-- The plain blocks of a chain, the first block of which is the vector. -/
def decryptChain : List Block → List Block
  | [] => []
  | before :: cs => decrypt s before cs

theorem decrypt_append_cons (before c : Block) (a b : List Block) :
    decrypt s before (a ++ c :: b) = decrypt s before (a ++ [c]) ++ decrypt s c b := by
  induction a generalizing before with
  | nil => rfl
  | cons d a ih => simp only [List.cons_append, decrypt, ih]

theorem decryptChain_append_cons (c : Block) (a b : List Block) :
    decryptChain s (a ++ c :: b) = decryptChain s (a ++ [c]) ++ decrypt s c b := by
  cases a with
  | nil => rfl
  | cons before a => exact decrypt_append_cons s before c a b

theorem length_decryptChain (a : List Block) (c : Block) :
    (decryptChain s (a ++ [c])).length = a.length := by
  cases a with
  | nil => rfl
  | cons before a => simp [decryptChain]

variable {a : List Block} {i : Nat} (l c : Block)

theorem decryptChain_concat :
    decryptChain s (a ++ [l] ++ [c]) = decryptChain s (a ++ [l]) ++ [s.decrypt c ^^^ l] := by
  rw [List.append_assoc]
  exact decryptChain_append_cons s l a [c]

theorem getElem?_decryptChain_length :
    (decryptChain s (a ++ [l] ++ [c]))[a.length]? = some (s.decrypt c ^^^ l) := by
  rw [decryptChain_concat, ← length_decryptChain s a l, List.getElem?_concat_length]

theorem getElem?_decryptChain_of_lt (hi : i < a.length) :
    (decryptChain s (a ++ [l] ++ [c]))[i]? = (decryptChain s (a ++ [l]))[i]? := by
  rw [decryptChain_concat, List.getElem?_append_left (by rw [length_decryptChain]; exact hi)]

/-! ### A replaced block -/

variable {c} {c' : Block} (d : Block)

theorem getElem?_decryptChain_replaced (hi : i ≠ a.length) (hi' : i + 1 ≠ a.length) :
    (decryptChain s (a ++ [c'] ++ [d]))[i]? = (decryptChain s (a ++ [c] ++ [d]))[i]? := by
  rcases Nat.lt_or_gt_of_ne hi with h | h
  · rw [getElem?_decryptChain_of_lt s c' d h, getElem?_decryptChain_of_lt s c d h]
    rcases List.eq_nil_or_concat a with rfl | ⟨a, l, rfl⟩
    · cases h
    · rw [List.concat_eq_append, List.length_append, List.length_singleton] at h hi'
      have hlt : i < a.length := by omega
      rw [List.concat_eq_append, getElem?_decryptChain_of_lt s l c' hlt,
        getElem?_decryptChain_of_lt s l c hlt]
  · have hl (x : Block) : (decryptChain s (a ++ [x] ++ [d])).length ≤ i := by
      rw [length_decryptChain, List.length_append, List.length_singleton]
      exact h
    rw [List.getElem?_eq_none (hl c'), List.getElem?_eq_none (hl c)]

/-- The block before is the same, and the block cipher is injective. -/
theorem getElem?_decryptChain_replaced_ne (hi : i + 1 = a.length) (hne : c ≠ c') :
    (decryptChain s (a ++ [c'] ++ [d]))[i]? ≠ (decryptChain s (a ++ [c] ++ [d]))[i]? := by
  have hlt : i < a.length := by omega
  rw [getElem?_decryptChain_of_lt s c' d hlt, getElem?_decryptChain_of_lt s c d hlt]
  rcases List.eq_nil_or_concat a with rfl | ⟨a, l, rfl⟩
  · cases hi
  · rw [List.concat_eq_append, List.length_append, List.length_singleton] at hi
    obtain rfl : i = a.length := by omega
    rw [List.concat_eq_append, getElem?_decryptChain_length, getElem?_decryptChain_length]
    intro h
    exact hne (s.decrypt_inj.1 (Block.xor_left_inj.1 (Option.some.inj h))).symm

end

end Aes.Cbc

namespace Aes256Cbc

open Aes.Cbc (decryptChain)

/-! ### The effect on a plaintext -/

/-- **The effect of a block replaced** at place `j` of the chain, where the vector has the place 0,
by one that differs from it by `d`. Block `j` of the plaintext is made from the places `j` and
`j + 1` of the chain. -/
structure IsTampered (j : Nat) (d : Block) (p p' : Bytes) : Prop where
  length_eq : p'.length = p.length
  /-- All other plain blocks stay. -/
  others : ∀ i, i ≠ j → i + 1 ≠ j → p'.blockAt i = p.blockAt i
  /-- The plain block behind the replaced one changes by the difference. -/
  flipped : ∃ x : Block, p.blockAt j = x.toBytes ∧ p'.blockAt j = (x ^^^ d).toBytes
  /-- The plain block of the replaced one changes, if it has one. -/
  garbled : ∀ i, i + 1 = j → p'.blockAt i ≠ p.blockAt i

theorem isTampered_decryptChain (s : KeySchedule) (a : List Block) {c c' : Block} (hne : c ≠ c')
    (d : Block) (rest : Bytes) :
    IsTampered a.length (c ^^^ c') (Block.join (decryptChain s (a ++ [c] ++ [d])) ++ rest)
      (Block.join (decryptChain s (a ++ [c'] ++ [d])) ++ rest) := by
  have hl (x : Block) : (decryptChain s (a ++ [x] ++ [d])).length = a.length + 1 := by
    rw [Aes.Cbc.length_decryptChain, List.length_append, List.length_singleton]
  constructor
  case length_eq =>
    rw [List.length_append, List.length_append, Block.length_join, Block.length_join, hl, hl]
  case others =>
    intro i hi hi'
    rw [Block.blockAt_join_append, Block.blockAt_join_append, hl, hl,
      Aes.Cbc.getElem?_decryptChain_replaced s d hi hi']
  case flipped =>
    refine ⟨s.decrypt d ^^^ c, ?_, ?_⟩
    · rw [Block.blockAt_join_append, Aes.Cbc.getElem?_decryptChain_length, Option.elim_some]
    · rw [Block.blockAt_join_append, Aes.Cbc.getElem?_decryptChain_length, Option.elim_some,
        Block.xor_xor_xor_cancel]
  case garbled =>
    intro i hi
    have hget (x : Block) : ∃ b, (decryptChain s (a ++ [x] ++ [d]))[i]? = some b :=
      ⟨_, List.getElem?_eq_getElem (by rw [hl]; omega)⟩
    obtain ⟨b, hb⟩ := hget c
    obtain ⟨b', hb'⟩ := hget c'
    have hdiffer := Aes.Cbc.getElem?_decryptChain_replaced_ne s d hi hne
    rw [hb, hb', Ne, Option.some_inj] at hdiffer
    rw [Block.blockAt_join_append, Block.blockAt_join_append, hb, hb']
    exact Block.toBytes_injective.ne hdiffer

/-! ### Decryption over the chain -/

theorem exists_of_append_eq_join {vector ciphertext : Bytes} {chain : List Block}
    (hv : vector.length = vectorSize) (h : vector ++ ciphertext = Block.join chain) :
    ∃ before cs, vector = before.toBytes ∧ ciphertext = Block.join cs ∧ chain = before :: cs := by
  cases chain with
  | nil =>
    have hl := congrArg List.length h
    rw [List.length_append, hv, vectorSize, Block.size, Block.length_join] at hl
    simp at hl
  | cons before cs =>
    rw [Block.join_cons] at h
    obtain ⟨hvector, hciphertext⟩ := List.append_inj h (hv.trans (Block.length_toBytes before).symm)
    exact ⟨before, cs, hvector, hciphertext, rfl⟩

/-- The last of the plain blocks behind `d` holds the padding, so that the others stand in front of
what these are stripped to. -/
theorem decrypt_chain {key : SecretKey} {s : KeySchedule}
    (hs : ∀ before : Block, setup key before.toBytes = .ok (s, before))
    {vector ciphertext : Bytes} (hv : vector.length = vectorSize) {a b : List Block} {c d : Block}
    (hchain : vector ++ ciphertext = Block.join (a ++ c :: d :: b)) (hb : b ≠ []) :
    decrypt key vector ciphertext =
      ((Aes.Padding.remove? (Block.join (Aes.Cbc.decrypt s d b))).map
        (Block.join (decryptChain s (a ++ [c] ++ [d])) ++ ·)).elim
          (.error .invalidPadding) .ok := by
  obtain ⟨before, cs, rfl, rfl, hcs⟩ := exists_of_append_eq_join hv hchain
  have hne : cs ≠ [] := by
    rintro rfl
    have hl := congrArg List.length hcs
    simp only [List.length_append, List.length_cons, List.length_nil] at hl
    omega
  obtain ⟨e, cs, rfl⟩ := List.exists_cons_of_ne_nil hne
  have hplain : Aes.Cbc.decrypt s before (e :: cs) =
      decryptChain s (a ++ [c] ++ [d]) ++ Aes.Cbc.decrypt s d b := by
    rw [← Aes.Cbc.decryptChain_append_cons, List.append_assoc]
    exact congrArg (decryptChain s) hcs.symm
  have hlast : 16 ≤ (Block.join (Aes.Cbc.decrypt s d b)).length := by
    have hpos := List.length_pos_iff.2 hb
    rw [Block.length_join, Aes.Cbc.length_decrypt, Block.size]
    omega
  rw [decrypt_join_cons (hs before), hplain, Block.join_append, Aes.Padding.remove?_append hlast]

/-- Decryption with a block replaced that has at least two behind it: it succeeds or fails as
before, with the same cause, and the plaintext has changed in two blocks alone. -/
theorem decrypt_replaced {key : SecretKey} (hk : key.bytes.length = keySize)
    {vector vector' ciphertext ciphertext' : Bytes} (hv : vector.length = vectorSize)
    (hv' : vector'.length = vectorSize) {a b : List Block} {c c' : Block}
    (hchain : vector ++ ciphertext = Block.join (a ++ c :: b))
    (hchain' : vector' ++ ciphertext' = Block.join (a ++ c' :: b)) (hb : 2 ≤ b.length)
    (hne : c ≠ c') :
    ((∃ p, decrypt key vector ciphertext = .ok p) ↔
      ∃ p', decrypt key vector' ciphertext' = .ok p') ∧
    (∀ e, decrypt key vector ciphertext = .error e ↔ decrypt key vector' ciphertext' = .error e) ∧
    ∀ p p', decrypt key vector ciphertext = .ok p → decrypt key vector' ciphertext' = .ok p' →
      IsTampered a.length (c ^^^ c') p p' := by
  obtain ⟨s, hs⟩ := exists_schedule hk
  have hpos : 0 < b.length := by omega
  obtain ⟨d, b, rfl⟩ := List.exists_cons_of_length_pos hpos
  have hb' : b ≠ [] := by
    rintro rfl
    simp at hb
  have h := decrypt_chain hs hv hchain hb'
  have h' := decrypt_chain hs hv' hchain' hb'
  -- What the padding is stripped from is the same in both.
  cases hrest : Aes.Padding.remove? (Block.join (Aes.Cbc.decrypt s d b)) with
  | none =>
    rw [hrest, Option.map_none, Option.elim_none] at h h'
    rw [h, h']
    exact ⟨Iff.rfl, fun e => Iff.rfl, nofun⟩
  | some rest =>
    rw [hrest, Option.map_some, Option.elim_some] at h h'
    rw [h, h']
    refine ⟨iff_of_true ⟨_, rfl⟩ ⟨_, rfl⟩, fun e => iff_of_false nofun nofun, fun p p' hp hp' => ?_⟩
    rw [← Except.ok.inj hp, ← Except.ok.inj hp']
    exact isTampered_decryptChain s a hne d rest

/-! ### Two vectors -/

theorem exists_setup_of_decrypt {key : SecretKey} {vector ciphertext p : Bytes}
    (h : decrypt key vector ciphertext = .ok p) :
    ∃ s before, setup key vector = .ok (s, before) := by
  cases hs : setup key vector with
  | error e => simp only [decrypt, hs, bind, Except.bind, reduceCtorEq] at h
  | ok setup => exact ⟨setup.1, setup.2, rfl⟩

/-- The plaintext and the ciphertext determine the vector. -/
theorem vector_unique {key : SecretKey} {vector vector' ciphertext p : Bytes}
    (h : decrypt key vector ciphertext = .ok p) (h' : decrypt key vector' ciphertext = .ok p) :
    vector = vector' := by
  obtain ⟨s, before, hs⟩ := exists_setup_of_decrypt h
  obtain ⟨s', before', hs'⟩ := exists_setup_of_decrypt h'
  obtain ⟨hkey, rfl⟩ := setup_eq_ok_pair_iff.1 hs
  obtain ⟨hkey', rfl⟩ := setup_eq_ok_pair_iff.1 hs'
  obtain rfl : s = s' := Option.some.inj (hkey.symm.trans hkey')
  obtain ⟨cs, hcs, hadd⟩ := (decrypt_eq_ok_iff hs).1 h
  obtain ⟨cs', hcs', hadd'⟩ := (decrypt_eq_ok_iff hs').1 h'
  obtain rfl := Block.join_injective (hcs.symm.trans hcs')
  have hplain := Block.join_injective (hadd.trans hadd'.symm)
  cases cs with
  | nil =>
    have hl := congrArg List.length hadd
    rw [Aes.Padding.length_add] at hl
    simp [Aes.Cbc.decrypt, Block.join] at hl
  | cons c cs =>
    have hhead := (List.cons.inj hplain).1
    rw [Block.xor_right_inj.1 hhead]

/-! ### The law -/

/-- **A replaced block garbles its own plain block and flips the next.** Let the vector and the
ciphertext be a chain of blocks, and replace one of them that has at least two behind it. Decryption
succeeds or fails as before, with the same cause, and a plaintext of the same length has changed in
the two blocks alone. Nor is a vector replaced without effect: under another one, no ciphertext has
the same plaintext. -/
theorem tampering_garbles_and_flips {key : SecretKey} (hk : key.bytes.length = keySize) :
    (∀ (vector vector' ciphertext ciphertext' : Bytes) (a b : List Block) (c c' : Block),
      vector.length = vectorSize → vector'.length = vectorSize →
      vector ++ ciphertext = Block.join (a ++ c :: b) →
      vector' ++ ciphertext' = Block.join (a ++ c' :: b) → 2 ≤ b.length → c ≠ c' →
      ((∃ p, decrypt key vector ciphertext = .ok p) ↔
        ∃ p', decrypt key vector' ciphertext' = .ok p') ∧
      (∀ e, decrypt key vector ciphertext = .error e ↔
        decrypt key vector' ciphertext' = .error e) ∧
      ∀ p p', decrypt key vector ciphertext = .ok p → decrypt key vector' ciphertext' = .ok p' →
        IsTampered a.length (c ^^^ c') p p') ∧
    ∀ vector vector' ciphertext p, vector ≠ vector' → decrypt key vector ciphertext = .ok p →
      decrypt key vector' ciphertext ≠ .ok p :=
  ⟨fun _ _ _ _ _ _ _ _ hv hv' hchain hchain' hb hne =>
    decrypt_replaced hk hv hv' hchain hchain' hb hne,
    fun _ _ _ _ hne h h' => hne (vector_unique h h')⟩

/-- A bit of the first ciphertext block is flipped, and with it one of the second plain block. -/
theorem tampering_garbles_and_flips_zeros :
    ∃ ciphertext ciphertext' p', ciphertext' ≠ ciphertext ∧
      encrypt zeroKey (Block.ofByte 0).toBytes (List.replicate 32 0) = .ok ciphertext ∧
      decrypt zeroKey (Block.ofByte 0).toBytes ciphertext' = .ok p' ∧
      IsTampered 1 (Block.ofByte 1) (List.replicate 32 0) p' := by
  obtain ⟨s, hs⟩ := exists_schedule length_zeroKey
  have hpad : Aes.Padding.add (List.replicate 32 0) =
      Block.join [Block.ofByte 0, Block.ofByte 0, Block.ofByte 16] := by decide
  have hencrypt := (encrypt_eq_ok_iff (hs (Block.ofByte 0))).2 ⟨_, hpad, rfl⟩
  obtain ⟨c, e, f, hcs⟩ : ∃ c e f, Aes.Cbc.encrypt s (Block.ofByte 0)
      [Block.ofByte 0, Block.ofByte 0, Block.ofByte 16] = [c, e, f] := ⟨_, _, _, rfl⟩
  rw [hcs] at hencrypt
  have hdecrypt := (decrypt_eq_ok_iff_encrypt _ _ _ _).2 hencrypt
  have hne : c ≠ c ^^^ Block.ofByte 1 := by
    intro h
    have hzero := (Block.xor_ofByte_zero c).trans h
    exact absurd (Block.xor_right_inj.1 hzero) (by decide)
  obtain ⟨hsuccess, -, heffect⟩ := (tampering_garbles_and_flips length_zeroKey).1
    (Block.ofByte 0).toBytes (Block.ofByte 0).toBytes (Block.join [c, e, f])
    (Block.join [c ^^^ Block.ofByte 1, e, f]) [Block.ofByte 0] [e, f] c (c ^^^ Block.ofByte 1)
    (Block.length_toBytes _) (Block.length_toBytes _) (Block.join_append [Block.ofByte 0] _).symm
    (Block.join_append [Block.ofByte 0] _).symm (le_refl 2) hne
  obtain ⟨p', hp'⟩ := hsuccess.1 ⟨_, hdecrypt⟩
  have h := heffect _ _ hdecrypt hp'
  rw [Block.xor_xor_self_left] at h
  refine ⟨_, _, p', fun heq => ?_, hencrypt, hp', h⟩
  exact hne (List.cons.inj (Block.join_injective heq)).1.symm

end Aes256Cbc

end MessageCrypto
