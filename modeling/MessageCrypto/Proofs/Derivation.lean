import MessageCrypto.Derivation
import MessageCrypto.Proofs.Hash.Binding
import MessageCrypto.Proofs.Text.Encoding

/-! # Derived keys are separate

A master key always has a derived key, of 32 bytes, and it is a chain of two tags: one of the master
key under the salt, and one of the purpose under the first tag. Four hashes are computed on the way.

* `Derivation.extract_of_ne_nil`, `Derivation.derive_of_ne_nil`: one tag, and then another; nothing
  but empty material can be wrong (`Derivation.derive_eq_error_iff`).
* `SecretKey.derive_eq`: the derived key.
* `SecretKey.eq_or_collides_of_derived_eq`: if two derived keys are equal, then so are their master
  keys and their purposes, or else two inputs of corresponding hashes collide. The length of the
  master key makes no difference: it is the message of the first tag, and the key of the second has
  32 bytes. -/

namespace MessageCrypto

/-! ### Two tags -/

namespace Derivation

section
variable {material : Bytes} (h : material ≠ []) (salt context : Bytes)
include h

theorem extract_of_ne_nil : extract material salt = .ok (Hash.Hkdf.extract salt material) :=
  if_neg h

theorem derive_of_ne_nil : derive material salt context =
    .ok (Hash.hmac (Hash.Hkdf.extract salt material) (context ++ [1])) := by
  simp only [derive, extract_of_ne_nil h, bind, Except.bind, size, Hash.Hkdf.expand?_block]

end

variable {material salt context : Bytes} {e : Error}

theorem extract_eq_error_iff :
    extract material salt = .error e ↔ material = [] ∧ e = .emptyKeyMaterial := by
  by_cases h : material = []
  · rw [extract, if_pos h, Except.error.injEq, and_iff_right h, eq_comm]
  · rw [extract_of_ne_nil h]
    exact iff_of_false nofun fun ⟨hnil, _⟩ => h hnil

/-- Expanding never fails, as one block is enough. -/
theorem derive_eq_error_iff :
    derive material salt context = .error e ↔ material = [] ∧ e = .emptyKeyMaterial := by
  by_cases h : material = []
  · have hextract : extract material salt = .error .emptyKeyMaterial :=
      extract_eq_error_iff.2 ⟨h, rfl⟩
    simp only [derive, hextract, bind, Except.bind, Except.error.injEq, and_iff_right h, eq_comm]
  · rw [derive_of_ne_nil h]
    exact iff_of_false nofun fun ⟨hnil, _⟩ => h hnil

end Derivation

/-! ### The derived key -/

open Hash (hmac sha256 IsCollision)
open Hash.Hmac (masked)

namespace SecretKey

/-- The tag of the master key under the salt. -/
def prk (master : SecretKey) : Bytes := Hash.Hkdf.extract salt master.bytes

@[simp] theorem length_prk (master : SecretKey) : master.prk.length = 32 := Hash.length_hmac _ _

/-- What is tagged under `prk`: the purpose and the counter of the only block. -/
def context (purpose : String) : Bytes := Bytes.ofString purpose ++ [1]

/-- The key for a purpose. -/
def derived (master : SecretKey) (purpose : String) : SecretKey where
  bytes := hmac master.prk (context purpose)
  nonempty h := by simpa [h] using Hash.length_hmac master.prk (context purpose)

@[simp] theorem length_derived (master : SecretKey) (purpose : String) :
    (master.derived purpose).bytes.length = 32 := Hash.length_hmac _ _

/-- **Derivation always succeeds**: a master key is not empty, and one block is never too long. -/
theorem derive_eq (master : SecretKey) (purpose : String) :
    master.derive purpose = .ok (master.derived purpose) := by
  have hderive : Derivation.derive master.bytes salt (Bytes.ofString purpose) =
      .ok (master.derived purpose).bytes := Derivation.derive_of_ne_nil master.nonempty _ _
  simp only [derive, hderive, bind, Except.bind, ofBytes]
  exact dif_neg (master.derived purpose).nonempty

/-! ### Separation -/

theorem context_injective : Function.Injective context := by
  intro s t h
  exact Bytes.ofString_injective (List.append_cancel_right h)

/-- **Two derivations collide**: the inputs of one of their four hashes do. First the inner and the
outer hash of the purpose's tag, then those of the master key's. -/
def DerivationCollides (m m' : SecretKey) (s s' : String) : Prop :=
  IsCollision (masked 0x36 m.prk ++ context s) (masked 0x36 m'.prk ++ context s') ∨
    IsCollision (masked 0x5c m.prk ++ sha256 (masked 0x36 m.prk ++ context s))
      (masked 0x5c m'.prk ++ sha256 (masked 0x36 m'.prk ++ context s')) ∨
    IsCollision (masked 0x36 salt ++ m.bytes) (masked 0x36 salt ++ m'.bytes) ∨
    IsCollision (masked 0x5c salt ++ sha256 (masked 0x36 salt ++ m.bytes))
      (masked 0x5c salt ++ sha256 (masked 0x36 salt ++ m'.bytes))

/-- The inputs of the four hashes are those that the two tags compute. -/
theorem derivationCollides_iff {m m' : SecretKey} {s s' : String} :
    DerivationCollides m m' s s' ↔
      Hash.Hmac.Collides m.prk (context s) m'.prk (context s') ∨
        Hash.Hmac.Collides salt m.bytes salt m'.bytes := by
  have hprk (m : SecretKey) : m.prk.length ≤ 64 := by simp
  have hsalt : salt.length ≤ 64 := by decide
  simp only [DerivationCollides, Hash.Hmac.Collides, Hash.Hmac.innerInput_of_length_le (hprk _),
    Hash.Hmac.outerInput_of_length_le (hprk _), Hash.Hmac.innerInput_of_length_le hsalt,
    Hash.Hmac.outerInput_of_length_le hsalt, or_assoc]

theorem eq_or_collides_of_derived_eq {m m' : SecretKey} {s s' : String}
    (h : (m.derived s).bytes = (m'.derived s').bytes) :
    (m = m' ∧ s = s') ∨ DerivationCollides m m' s s' := by
  rw [derivationCollides_iff]
  have hl : m.prk.length = m'.prk.length := by rw [length_prk, length_prk]
  rcases Hash.Hmac.eq_or_collides_of_length_eq (by simp) hl h with ⟨hprk, hcontext⟩ | hc
  · rcases Hash.Hmac.eq_or_collides hprk with ⟨-, hbytes⟩ | hc
    · refine Or.inl ⟨?_, context_injective hcontext⟩
      cases m
      cases m'
      congr 1
    · exact Or.inr (Or.inr hc)
  · exact Or.inr (Or.inl hc)

/-- **Keys are separate**: equal derived keys come from one master key and one purpose, or their
derivations collide. -/
theorem derive_separates {m m' : SecretKey} {s s' : String} (h : m.derive s = m'.derive s') :
    (m = m' ∧ s = s') ∨ DerivationCollides m m' s s' := by
  rw [derive_eq, derive_eq] at h
  exact eq_or_collides_of_derived_eq (congrArg bytes (Except.ok.inj h))

theorem derive_separates_self :
    (⟨[0], by decide⟩ : SecretKey).derive "A" = (⟨[0], by decide⟩ : SecretKey).derive "A" ∧
      (((⟨[0], by decide⟩ : SecretKey) = ⟨[0], by decide⟩ ∧ "A" = "A") ∨
        DerivationCollides ⟨[0], by decide⟩ ⟨[0], by decide⟩ "A" "A") :=
  ⟨rfl, derive_separates rfl⟩

end SecretKey

end MessageCrypto
