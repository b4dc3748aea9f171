import MessageCrypto.Encryption
import MessageCrypto.Proofs.Derivation

/-! # Decryption and encryption are inverse relations

Under one key and one vector, a ciphertext is decrypted to a plaintext exactly if that plaintext is
encrypted to it. Both directions go through blocks: a plaintext is padded to blocks in one way,
blocks are chained in a way that has an inverse, and the bytes of a ciphertext divide into blocks in
one way.

* `Aes256Cbc.encrypt_eq_ok_iff`, `Aes256Cbc.decrypt_eq_ok_iff`: both functions over blocks.
* `Aes256Cbc.decrypt_eq_ok_iff_encrypt`: the relation, with the key itself.
* `encrypt_eq`, `decrypt_eq`: a derived key always has its length, so only the vector is in doubt.
* `exists_encrypt_iff`: when encryption succeeds. -/

namespace MessageCrypto

open Aes (Block KeySchedule)

theorem Aes.Block.join_injective : Function.Injective Block.join := by
  intro bs cs h
  have hsplit := congrArg Block.split? h
  rw [Block.split?_join, Block.split?_join] at hsplit
  exact Option.some.inj hsplit

namespace Aes256Cbc

/-! ### The two functions over blocks -/

section Blocks
variable {key : SecretKey} {vector : Bytes} {s : KeySchedule} {before : Block}
  (hs : setup key vector = .ok (s, before))
include hs

/-- Encryption pads, chains, and never fails after the set-up. -/
theorem encrypt_eq_ok_iff {plaintext ciphertext : Bytes} :
    encrypt key vector plaintext = .ok ciphertext ↔
      ∃ bs, Aes.Padding.add plaintext = Block.join bs ∧
        ciphertext = Block.join (Aes.Cbc.encrypt s before bs) := by
  have hl : (Aes.Padding.add plaintext).length = Block.size * (plaintext.length / 16 + 1) :=
    Aes.Padding.length_add plaintext
  obtain ⟨bs, hbs⟩ := Block.exists_split? hl
  have henc : encrypt key vector plaintext = .ok (Block.join (Aes.Cbc.encrypt s before bs)) := by
    simp only [encrypt, hs, bind, Except.bind, hbs]
  rw [henc]
  constructor
  · intro h
    exact ⟨bs, Block.eq_join_of_split? hbs, (Except.ok.inj h).symm⟩
  · rintro ⟨bs', hbs', rfl⟩
    rw [Block.split?_eq_some_iff.2 hbs'] at hbs
    rw [Option.some.inj hbs]

theorem exists_encrypt (plaintext : Bytes) :
    ∃ ciphertext, encrypt key vector plaintext = .ok ciphertext := by
  obtain ⟨bs, hbs⟩ := Block.exists_split? (Aes.Padding.length_add plaintext)
  exact ⟨_, (encrypt_eq_ok_iff hs).2 ⟨bs, Block.eq_join_of_split? hbs, rfl⟩⟩

theorem decrypt_join_cons (c : Block) (cs : List Block) :
    decrypt key vector (Block.join (c :: cs)) =
      (Aes.Padding.remove? (Block.join (Aes.Cbc.decrypt s before (c :: cs)))).elim
        (.error .invalidPadding) .ok := by
  cases hremove : Aes.Padding.remove? (Block.join (Aes.Cbc.decrypt s before (c :: cs))) with
  | none => simp only [decrypt, hs, bind, Except.bind, Block.split?_join, hremove, Option.elim_none]
  | some plaintext =>
    simp only [decrypt, hs, bind, Except.bind, Block.split?_join, hremove, Option.elim_some]

/-- Decryption takes whole blocks whose plain blocks are padded; there is one at least, since
padding is never empty. -/
theorem decrypt_eq_ok_iff {plaintext ciphertext : Bytes} :
    decrypt key vector ciphertext = .ok plaintext ↔
      ∃ cs, ciphertext = Block.join cs ∧
        Block.join (Aes.Cbc.decrypt s before cs) = Aes.Padding.add plaintext := by
  cases hsplit : Block.split? ciphertext with
  | none =>
    simp only [decrypt, hs, bind, Except.bind, hsplit, reduceCtorEq, false_iff]
    rintro ⟨cs, rfl, -⟩
    rw [Block.split?_join] at hsplit
    cases hsplit
  | some cs =>
    obtain rfl := Block.eq_join_of_split? hsplit
    have hunique : (∃ cs', Block.join cs = Block.join cs' ∧
        Block.join (Aes.Cbc.decrypt s before cs') = Aes.Padding.add plaintext) ↔
        Block.join (Aes.Cbc.decrypt s before cs) = Aes.Padding.add plaintext := by
      constructor
      · rintro ⟨cs', hcs', hadd⟩
        rw [Block.join_injective hcs']
        exact hadd
      · intro hadd
        exact ⟨cs, rfl, hadd⟩
    rw [hunique]
    cases cs with
    | nil =>
      simp only [decrypt, hs, bind, Except.bind, hsplit, reduceCtorEq, false_iff]
      intro hadd
      have hl := congrArg List.length hadd
      rw [Aes.Padding.length_add] at hl
      simp [Aes.Cbc.decrypt, Block.join] at hl
    | cons c cs =>
      have hmod : (Block.join (Aes.Cbc.decrypt s before (c :: cs))).length % 16 = 0 := by
        rw [Block.length_join, Block.size, Nat.mul_mod_right]
      rw [decrypt_join_cons hs, ← Aes.Padding.remove?_eq_some_iff hmod]
      cases Aes.Padding.remove? (Block.join (Aes.Cbc.decrypt s before (c :: cs))) <;> simp

end Blocks

/-! ### The inverse relation -/

theorem decrypt_eq_ok_iff_encrypt (key : SecretKey) (vector plaintext ciphertext : Bytes) :
    decrypt key vector ciphertext = .ok plaintext ↔
      encrypt key vector plaintext = .ok ciphertext := by
  cases hs : setup key vector with
  | error e => simp [decrypt, encrypt, hs, bind, Except.bind]
  | ok setup =>
    obtain ⟨s, before⟩ := setup
    rw [decrypt_eq_ok_iff hs, encrypt_eq_ok_iff hs]
    constructor
    · rintro ⟨cs, rfl, hadd⟩
      exact ⟨Aes.Cbc.decrypt s before cs, hadd.symm, by rw [Aes.Cbc.encrypt_decrypt]⟩
    · rintro ⟨bs, hadd, rfl⟩
      exact ⟨Aes.Cbc.encrypt s before bs, rfl, by rw [Aes.Cbc.decrypt_encrypt, hadd]⟩

/-- A ciphertext is longer than its plaintext by the padding. -/
theorem length_of_encrypt_eq_ok {key : SecretKey} {vector plaintext ciphertext : Bytes}
    (h : encrypt key vector plaintext = .ok ciphertext) :
    ciphertext.length = 16 * (plaintext.length / 16 + 1) := by
  cases hs : setup key vector with
  | error e => simp [encrypt, hs, bind, Except.bind] at h
  | ok setup =>
    obtain ⟨bs, hadd, rfl⟩ := (encrypt_eq_ok_iff hs).1 h
    rw [← Aes.Padding.length_add, hadd, Block.length_join, Block.length_join,
      Aes.Cbc.length_encrypt]

/-! ### Failures -/

section
variable {key : SecretKey} {vector : Bytes} {e : Error}

theorem setup_eq_error_or (h : setup key vector = .error e) :
    e = .keyLength key.bytes.length ∨ e = .vectorLength vector.length := by
  unfold setup at h
  split at h
  · exact .inl (Except.error.inj h).symm
  · cases h
  · exact .inr (Except.error.inj h).symm

/-- Encryption fails only in the set-up: padding gives whole blocks. -/
theorem encrypt_eq_error_iff {plaintext : Bytes} :
    encrypt key vector plaintext = .error e ↔ setup key vector = .error e := by
  cases hs : setup key vector with
  | error e' => simp only [encrypt, hs, bind, Except.bind, Except.error.injEq]
  | ok setup =>
    obtain ⟨ciphertext, hok⟩ := exists_encrypt hs plaintext
    simp only [hok, reduceCtorEq]

/-- Decryption also fails for the number of bytes of the ciphertext, or the padding. -/
theorem decrypt_eq_error_or {ciphertext : Bytes} (h : decrypt key vector ciphertext = .error e) :
    setup key vector = .error e ∨ e = .ciphertextLength ciphertext.length ∨
      e = .invalidPadding := by
  cases hs : setup key vector with
  | error e' =>
    simp only [decrypt, hs, bind, Except.bind] at h
    exact .inl (congrArg Except.error (Except.error.inj h))
  | ok setup =>
    simp only [decrypt, hs, bind, Except.bind] at h
    split at h
    · exact .inr (.inl (Except.error.inj h).symm)
    · exact .inr (.inl (Except.error.inj h).symm)
    · split at h
      · cases h
      · exact .inr (.inr (Except.error.inj h).symm)

section
variable (hk : key.bytes.length = keySize)
include hk

theorem setup_eq_error (h : setup key vector = .error e) : e = .vectorLength vector.length := by
  obtain ⟨k, hkey⟩ := Option.isSome_iff_exists.1 (Aes.Key.isSome_ofBytes?_iff.2 hk)
  unfold setup at h
  rw [hkey] at h
  split at h
  · next hnone => cases hnone
  · cases h
  · exact (Except.error.inj h).symm

/-- With a key of the right length encryption fails only for the length of the vector. -/
theorem encrypt_eq_error {plaintext : Bytes} (h : encrypt key vector plaintext = .error e) :
    e = .vectorLength vector.length :=
  setup_eq_error hk (encrypt_eq_error_iff.1 h)

/-- With a key of the right length decryption fails for the vector, the number of bytes of the
ciphertext, or the padding. -/
theorem decrypt_eq_error {ciphertext : Bytes} (h : decrypt key vector ciphertext = .error e) :
    e = .vectorLength vector.length ∨ e = .ciphertextLength ciphertext.length ∨
      e = .invalidPadding :=
  (decrypt_eq_error_or h).imp_left (setup_eq_error hk)

end

end

end Aes256Cbc

/-! ### Under a scheme -/

/-- The key of the only scheme that encrypts. -/
def SecretKey.encryptionKey (master : SecretKey) : SecretKey :=
  master.derived EncryptionScheme.aes256Cbc.purpose

theorem SecretKey.length_encryptionKey (master : SecretKey) :
    master.encryptionKey.bytes.length = Aes256Cbc.keySize := length_derived _ _

theorem encrypt_eq (master : SecretKey) (vector plaintext : Bytes) :
    encrypt master .aes256Cbc vector plaintext =
      Aes256Cbc.encrypt master.encryptionKey vector plaintext := by
  simp only [encrypt, SecretKey.derive_eq, bind, Except.bind, SecretKey.encryptionKey]

theorem decrypt_eq (master : SecretKey) (vector ciphertext : Bytes) :
    decrypt master .aes256Cbc vector ciphertext =
      Aes256Cbc.decrypt master.encryptionKey vector ciphertext := by
  simp only [decrypt, SecretKey.derive_eq, bind, Except.bind, SecretKey.encryptionKey]

theorem exists_encrypt_iff (master : SecretKey) (vector plaintext : Bytes) :
    (∃ ciphertext, encrypt master .aes256Cbc vector plaintext = .ok ciphertext) ↔
      vector.length = 16 := by
  have hsetup : (∃ s, Aes256Cbc.setup master.encryptionKey vector = .ok s) ↔
      vector.length = 16 := by
    rw [Aes256Cbc.setup_eq_ok_iff, and_iff_right master.length_encryptionKey, Aes256Cbc.vectorSize,
      Block.size]
  rw [encrypt_eq, ← hsetup]
  constructor
  · rintro ⟨ciphertext, h⟩
    cases hs : Aes256Cbc.setup master.encryptionKey vector with
    | error e => simp [Aes256Cbc.encrypt, hs, bind, Except.bind] at h
    | ok setup => exact ⟨setup, rfl⟩
  · rintro ⟨⟨s, before⟩, hs⟩
    exact Aes256Cbc.exists_encrypt hs plaintext

/-- **Decryption inverts encryption**, under a master key of any length and with a key as it is. Two
ciphertexts never have one plaintext, encryption succeeds for the vectors of sixteen bytes, with a
ciphertext of whole blocks, and no failure is one of the key. -/
theorem decryption_inverts_encryption (master : SecretKey) (vector plaintext ciphertext : Bytes) :
    (decrypt master .aes256Cbc vector ciphertext = .ok plaintext ↔
      encrypt master .aes256Cbc vector plaintext = .ok ciphertext) ∧
    (∀ other, decrypt master .aes256Cbc vector ciphertext = .ok plaintext →
      decrypt master .aes256Cbc vector other = .ok plaintext → ciphertext = other) ∧
    ((∃ c, encrypt master .aes256Cbc vector plaintext = .ok c) ↔ vector.length = 16) ∧
    (encrypt master .aes256Cbc vector plaintext = .ok ciphertext →
      ciphertext.length = 16 * (plaintext.length / 16 + 1)) ∧
    (∀ e, encrypt master .aes256Cbc vector plaintext = .error e → e.kind ≠ .invalidKey) ∧
    (∀ e, decrypt master .aes256Cbc vector ciphertext = .error e → e.kind ≠ .invalidKey) ∧
    (∀ key : SecretKey, Aes256Cbc.decrypt key vector ciphertext = .ok plaintext ↔
      Aes256Cbc.encrypt key vector plaintext = .ok ciphertext) := by
  have hiff (c : Bytes) : decrypt master .aes256Cbc vector c = .ok plaintext ↔
      encrypt master .aes256Cbc vector plaintext = .ok c := by
    rw [decrypt_eq, encrypt_eq, Aes256Cbc.decrypt_eq_ok_iff_encrypt]
  refine ⟨hiff ciphertext, ?_, exists_encrypt_iff master vector plaintext, ?_, ?_, ?_, ?_⟩
  · intro other h h'
    rw [hiff] at h h'
    rw [h] at h'
    exact Except.ok.inj h'
  · intro h
    rw [encrypt_eq] at h
    exact Aes256Cbc.length_of_encrypt_eq_ok h
  · intro e h
    rw [encrypt_eq] at h
    rw [Aes256Cbc.encrypt_eq_error master.length_encryptionKey h]
    simp [Error.kind]
  · intro e h
    rw [decrypt_eq] at h
    rcases Aes256Cbc.decrypt_eq_error master.length_encryptionKey h with rfl | rfl | rfl <;>
      simp [Error.kind]
  · exact fun key => Aes256Cbc.decrypt_eq_ok_iff_encrypt key vector plaintext ciphertext

end MessageCrypto
