import MessageCrypto.Proofs.Derivation
import MessageCrypto.Proofs.Signing.Check

/-! # Tags under a key as it is

A tag that is made without deriving a key first depends on the block key alone: a key of more than 64
bytes is hashed, and zeros are put behind a shorter one. Keys of one block key are interchangeable,
and no others are unless two hash inputs collide. Extracting and expanding are such tags too, with
the salt and the extracted key in the place of the key.

* `Hmac.tag_congr`, `Hmac.verify_congr`: keys of one block key.
* `Hmac.raw_tag_binds_block_key`: equal tags come from one block key and one message.
* `Derivation.derive_congr`: salts of one block key.
* `Derivation.derivation_is_two_tags`: extracting and expanding, with tags under secret keys. -/

namespace MessageCrypto

open Hash.Hmac (blockKey)

/-! ### Interchangeable keys -/

namespace Hmac

section
variable {k k' : SecretKey} (h : blockKey k.bytes = blockKey k'.bytes)
include h

theorem tag_congr (data : Bytes) : tag k data = tag k' data := by
  rw [tag_eq, tag_eq, sign, sign, Hash.Hmac.hmac_congr h]

theorem verify_congr (signature data : Bytes) :
    verify k signature data = verify k' signature data := by
  rw [verify, verify, tag_congr h]

end

/-- **A tag under a key as it is binds the block key** and the message. Two keys of one block key
make the same tags and accept the same ones; and if the tags of two keys and two messages are equal,
so are the block keys and the messages, or the inner or the outer hash inputs collide. -/
theorem raw_tag_binds_block_key (k k' : SecretKey) :
    (blockKey k.bytes = blockKey k'.bytes → (∀ data, tag k data = tag k' data) ∧
      ∀ signature data, verify k signature data = verify k' signature data) ∧
    ∀ data data', tag k data = tag k' data' →
      (blockKey k.bytes = blockKey k'.bytes ∧ data = data') ∨
        Hash.IsCollision ((blockKey k.bytes).map (· ^^^ 0x36) ++ data)
          ((blockKey k'.bytes).map (· ^^^ 0x36) ++ data') ∨
        Hash.IsCollision
          ((blockKey k.bytes).map (· ^^^ 0x5c) ++
            Hash.sha256 ((blockKey k.bytes).map (· ^^^ 0x36) ++ data))
          ((blockKey k'.bytes).map (· ^^^ 0x5c) ++
            Hash.sha256 ((blockKey k'.bytes).map (· ^^^ 0x36) ++ data')) := by
  refine ⟨fun h => ⟨tag_congr h, verify_congr h⟩, fun data data' h => ?_⟩
  rw [tag_eq, tag_eq] at h
  exact Hash.Hmac.eq_or_collides (Except.ok.inj h)

/-- A zero behind a key makes no difference. -/
theorem raw_tag_binds_block_key_zero :
    (⟨[1], List.cons_ne_nil 1 []⟩ : SecretKey) ≠ ⟨[1, 0], List.cons_ne_nil 1 [0]⟩ ∧
      ∀ data, tag ⟨[1], List.cons_ne_nil 1 []⟩ data = tag ⟨[1, 0], List.cons_ne_nil 1 [0]⟩ data := by
  have h : blockKey [1] = blockKey [1, 0] :=
    (Hash.Hmac.blockKey_eq_iff (by decide) (by decide)).2 rfl
  exact ⟨by decide, ((raw_tag_binds_block_key ⟨[1], _⟩ ⟨[1, 0], _⟩).1 h).1⟩

end Hmac

/-! ### Extracting and expanding -/

namespace Derivation

section
variable {salt salt' : Bytes} (h : blockKey salt = blockKey salt')
include h

theorem extract_congr (material : Bytes) : extract material salt = extract material salt' := by
  rw [extract, extract, Hash.Hkdf.extract, Hash.Hkdf.extract, Hash.Hmac.hmac_congr h]

theorem derive_congr (material context : Bytes) :
    derive material salt context = derive material salt' context := by
  rw [derive, derive, extract_congr h]

end

/-- **Extracting and expanding are two tags**, of the material under the salt, and of the context and
a one under the first tag. They are the tags that secret keys make: one of the same block key as the
salt, which is the salt itself if that is not empty, and one of the bytes of the first tag. Both
fail exactly for empty material. Salts of one block key do not differ, so an empty one is like up to
64 zeros. -/
theorem derivation_is_two_tags (material salt context : Bytes) :
    (material ≠ [] → ∃ prk okm, extract material salt = .ok prk ∧
      derive material salt context = .ok okm ∧
      prk = Hash.hmac salt material ∧ okm = Hash.hmac prk (context ++ [1]) ∧
      (∀ key : SecretKey, blockKey key.bytes = blockKey salt → Hmac.tag key material = .ok prk) ∧
      ∃ key : SecretKey, key.bytes = prk ∧ Hmac.tag key (context ++ [1]) = .ok okm) ∧
    (∀ e, extract material salt = .error e ↔ material = [] ∧ e = .emptyKeyMaterial) ∧
    (∀ e, derive material salt context = .error e ↔ material = [] ∧ e = .emptyKeyMaterial) ∧
    (∀ salt', blockKey salt = blockKey salt' → extract material salt = extract material salt' ∧
      derive material salt context = derive material salt' context) ∧
    ∀ n ≤ 64, extract material [] = extract material (List.replicate n 0) ∧
      derive material [] context = derive material (List.replicate n 0) context := by
  have hcongr {salt salt' : Bytes} (h : blockKey salt = blockKey salt') :
      extract material salt = extract material salt' ∧
        derive material salt context = derive material salt' context :=
    ⟨extract_congr h material, derive_congr h material context⟩
  refine ⟨fun h => ?_, fun e => extract_eq_error_iff, fun e => derive_eq_error_iff,
    fun salt' => hcongr, fun n hn => hcongr (Hash.Hmac.blockKey_replicate hn)⟩
  have hprk : Hash.Hkdf.extract salt material ≠ [] :=
    List.ne_nil_of_length_eq_add_one (Hash.length_hmac salt material)
  refine ⟨_, _, extract_of_ne_nil h salt, derive_of_ne_nil h salt context, rfl, rfl, ?_,
    ⟨_, hprk⟩, rfl, Hmac.tag_eq _ _⟩
  intro key hkey
  rw [Hmac.tag_eq, Hmac.sign, Hash.Hmac.hmac_congr hkey, Hash.Hkdf.extract]

/-- A salt that cannot be the key of a tag, as it is empty, and the zeros that can. -/
theorem derivation_is_two_tags_empty_salt :
    ∃ prk, extract [7] [] = .ok prk ∧ extract [7] (List.replicate 64 0) = .ok prk ∧
      Hmac.tag ⟨List.replicate 64 0, nofun⟩ [7] = .ok prk := by
  obtain ⟨hok, -, -, -, hzeros⟩ := derivation_is_two_tags [7] [] []
  obtain ⟨prk, -, hprk, -, -, -, htag, -⟩ := hok nofun
  refine ⟨prk, hprk, (hzeros 64 (Nat.le_refl 64)).1.symm.trans hprk, htag _ ?_⟩
  exact (Hash.Hmac.blockKey_replicate (Nat.le_refl 64)).symm

end Derivation

end MessageCrypto
