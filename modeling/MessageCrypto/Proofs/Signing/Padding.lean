import MessageCrypto.Proofs.Signing.Rsa
import MessageCrypto.Proofs.Signing.Writing

/-! # The whole padded block is checked

For a modulus of 256 bytes the padded digest is one block that is known to the last byte. A
signature is accepted if its power is that block, so that no part of the padding is passed over and
nothing can stand behind the digest. Nothing is asked of the modulus: it may be prime, or made to
fit a signature that was there before it. As the digest can be read off the block, a signature is
good for one digest.

* `Rsa.padded_eq_block`: the padded digest, byte by byte.
* `Rsa2048.verify_eq_ok_iff_isSignature`: what is accepted under a key.
* `rsa_checks_whole_block`: the accepted byte strings, and what comes of any other. -/

namespace MessageCrypto

namespace Rsa

/-! ### The block -/

/-- **The block of a digest** for a modulus of 256 bytes: 0 and 1, 202 bytes of ones, 0, a SEQUENCE
of 49 bytes with the name of SHA-256, and the digest in an OCTET STRING of 32 bytes. -/
def block (digest : Bytes) : Bytes :=
  [0x00, 0x01] ++ List.replicate 202 0xff ++
    [0x00, 0x30, 0x31, 0x30, 0x0d, 0x06, 0x09, 0x60, 0x86, 0x48, 0x01, 0x65, 0x03, 0x04, 0x02, 0x01,
      0x05, 0x00, 0x04, 0x20] ++ digest

theorem padded_eq_block {digest : Bytes} (hdigest : digest.length = 32) :
    padded 256 digest = block digest := by
  have hinfo := digestInfo_eq hdigest
  have hones : 256 - 3 - (digestInfo digest).length = 202 := by
    rw [hinfo, List.length_append, hdigest]
    rfl
  rw [padded, hones, hinfo, block]
  simp only [List.cons_append, List.nil_append, List.append_assoc]

theorem length_block {digest : Bytes} (hdigest : digest.length = 32) :
    (block digest).length = 256 := by
  rw [← padded_eq_block hdigest]
  exact length_padded hdigest (by decide)

/-- The digest is what stands behind bytes that are the same in every block. -/
theorem block_injective : Function.Injective block := fun _ _ h => List.append_cancel_left h

/-! ### Signatures of a digest -/

/-- **A byte string is a signature of a digest** for a modulus of 256 bytes: it has as many bytes,
stands for a number below the modulus, and the power of that number is the block of the digest. -/
structure IsSignature (k : PublicKey) (digest s : Bytes) : Prop where
  length_eq : s.length = 256
  lt_modulus : Bytes.toNat s < k.modulus
  power_eq : Bytes.ofNat 256 (Bytes.toNat s ^ k.exponent % k.modulus) = block digest

variable {k : PublicKey} {digest digest' s : Bytes}

theorem verify_iff_isSignature (hsize : k.size = 256) (hdigest : digest.length = 32) :
    verify k digest s = true ↔ IsSignature k digest s := by
  simp only [verify, Bool.and_eq_true, beq_iff_eq, decide_eq_true_eq, powerMod_eq, hsize,
    padded_eq_block hdigest]
  constructor
  · rintro ⟨⟨hlength, hlt⟩, hpower⟩
    exact ⟨hlength, hlt, hpower⟩
  · intro h
    exact ⟨⟨h.length_eq, h.lt_modulus⟩, h.power_eq⟩

/-- A signature has one digest. -/
theorem IsSignature.digest_eq (h : IsSignature k digest s) (h' : IsSignature k digest' s) :
    digest = digest' :=
  block_injective (h.power_eq.symm.trans h'.power_eq)

end Rsa

/-! ### Under keys -/

namespace Rsa2048

variable {key : PublicKey} {k : Rsa.PublicKey} {s data : Bytes}

theorem verify_eq_ok_iff_isSignature (hk : key.toRsa = .ok k) (hsize : k.size = 256) :
    Rsa2048.verify key s data = .ok () ↔ Rsa.IsSignature k (Hash.sha256 data) s := by
  rw [verify_eq_ok_iff hk hsize, Rsa.verify_iff_isSignature hsize (Hash.length_sha256 data)]

/-- There is one cause for all byte strings that are not accepted. -/
theorem verify_eq_error_of_ne_ok (hk : key.toRsa = .ok k) (hsize : k.size = 256)
    (h : Rsa2048.verify key s data ≠ .ok ()) :
    Rsa2048.verify key s data = .error .signatureRejected := by
  rw [verify_of_size_eq hk hsize, Ne, accept_eq_ok_iff, Bool.not_eq_true] at h
  rw [verify_of_size_eq hk hsize, accept_eq_error_iff]
  exact ⟨h, rfl⟩

end Rsa2048

/-- **The whole block is checked**, whatever the modulus of 256 bytes is. The byte strings that are
accepted are those of 256 bytes that stand for a number below the modulus whose power, written with
256 bytes, is the block of the digest; any other is turned down for this. A byte string that is
accepted for two messages shows that they have one digest. -/
theorem rsa_checks_whole_block {key : PublicKey} {k : Rsa.PublicKey} (hk : key.toRsa = .ok k)
    (hlow : 2 ^ 2040 ≤ k.modulus) (hhigh : k.modulus < 2 ^ 2048) :
    (∀ s data, Rsa2048.verify key s data = .ok () ↔ Rsa.IsSignature k (Hash.sha256 data) s) ∧
    (∀ s data, Rsa2048.verify key s data ≠ .ok () →
      Rsa2048.verify key s data = .error .signatureRejected) ∧
    ∀ s data data', Rsa2048.verify key s data = .ok () → Rsa2048.verify key s data' = .ok () →
      Hash.sha256 data = Hash.sha256 data' := by
  have hsize : k.size = 256 :=
    (Rsa2048.size_eq_iff (Rsa2048.modulus_ne_zero_of_toRsa hk)).2 ⟨hlow, hhigh⟩
  refine ⟨fun s data => Rsa2048.verify_eq_ok_iff_isSignature hk hsize,
    fun s data h => Rsa2048.verify_eq_error_of_ne_ok hk hsize h, fun s data data' h h' => ?_⟩
  rw [Rsa2048.verify_eq_ok_iff_isSignature hk hsize] at h h'
  exact h.digest_eq h'

/-! ### A modulus made to fit a signature -/

/-- The number of the signature. -/
def fittedRoot : ℕ := 3 * 2 ^ 681

/-- The modulus is what the cube of the number exceeds the block of the empty message by. -/
def fittedRsaKey : Rsa.PublicKey :=
  ⟨fittedRoot ^ 3 - Bytes.toNat (Rsa.block (Hash.sha256 [])), 3⟩

def fittedPublicKey : PublicKey :=
  ⟨⟨.rsa, fittedRsaKey.toDer, KeyAlgorithm.rsa_ne_aes256, Der.Element.encode_ne_nil _⟩⟩

theorem toRsa_fittedPublicKey : fittedPublicKey.toRsa = .ok fittedRsaKey := by
  have hvalid : fittedRsaKey.isValid = true := by decide +kernel
  have hlt : fittedRsaKey.modulus < 256 ^ 256 := by decide +kernel
  exact PublicKey.toRsa_eq_ok_iff.2 ⟨rfl, Rsa.PublicKey.ofDer?_toDer hvalid hlt (by decide)⟩

/-- The number is accepted for the empty message with its leading zeros, and not without them. -/
theorem rsa_checks_whole_block_fitted :
    fittedPublicKey.toRsa = .ok fittedRsaKey ∧
    (2 ^ 2040 ≤ fittedRsaKey.modulus ∧ fittedRsaKey.modulus < 2 ^ 2048) ∧
    Rsa2048.verify fittedPublicKey (Bytes.ofNat 256 fittedRoot) [] = .ok () ∧
    Rsa2048.verify fittedPublicKey (Bytes.ofNat 86 fittedRoot) [] = .error .signatureRejected := by
  have hlow : 2 ^ 2040 ≤ fittedRsaKey.modulus := by decide +kernel
  have hhigh : fittedRsaKey.modulus < 2 ^ 2048 := by decide +kernel
  obtain ⟨haccept, hreject, -⟩ := rsa_checks_whole_block toRsa_fittedPublicKey hlow hhigh
  have hroot : Bytes.toNat (Bytes.ofNat 256 fittedRoot) = fittedRoot := by
    rw [Bytes.toNat_ofNat]
    decide +kernel
  have hpower : fittedRoot ^ fittedRsaKey.exponent % fittedRsaKey.modulus =
      Bytes.toNat (Rsa.block (Hash.sha256 [])) := by decide +kernel
  have hlt : fittedRoot ^ fittedRsaKey.exponent % fittedRsaKey.modulus < Nat.pow 256 256 := by
    decide +kernel
  have hblock := Rsa.length_block (Hash.length_sha256 [])
  have hsignature : Rsa.IsSignature fittedRsaKey (Hash.sha256 []) (Bytes.ofNat 256 fittedRoot) :=
    ⟨Bytes.length_ofNat _ _, hroot.symm ▸ by decide +kernel,
      hroot.symm ▸ (Bytes.ofNat_eq_iff hblock hlt).2 hpower⟩
  refine ⟨toRsa_fittedPublicKey, ⟨hlow, hhigh⟩, (haccept _ _).2 hsignature, hreject _ _ ?_⟩
  intro h
  have hlength := ((haccept _ _).1 h).length_eq
  rw [Bytes.length_ofNat] at hlength
  cases hlength

end MessageCrypto
