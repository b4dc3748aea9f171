import MessageCrypto.Proofs.Rsa.Blinding

/-! # Signatures as roots of padded digests

A padded digest has as many bytes as the modulus and starts with a zero, so that it stands for a
number below the modulus. A signature is accepted if it has that many bytes, stands for a number
below the modulus, and its power is the padded digest.

* `PublicKey.size_eq_succ_iff`: between which powers of 256 a modulus of a given size is.
* `verify_iff`: what is accepted.
* `PrivateKey.yields_sign?_iff`: signing draws a unit, and nothing else.
* `PrivateKey.verify_of_signWith?`: what is signed with a unit is accepted, whatever the unit and the
  factors are.
* `PrivateKey.HasPrimeFactors.exists_sign?`, `PrivateKey.HasPrimeFactors.eq_of_verify`: with distinct
  primes every unit gives the same signature of a digest, and no other is accepted. -/

namespace MessageCrypto.Rsa

open Der (Element)

/-! ### The size of a modulus -/

namespace PublicKey

variable {k : PublicKey}

theorem size_eq_succ_iff {s : ℕ} (h0 : k.modulus ≠ 0) :
    k.size = s + 1 ↔ 256 ^ s ≤ k.modulus ∧ k.modulus < 256 ^ (s + 1) := by
  have hlow : 256 ^ s = 2 ^ (8 * s) := (pow_mul 2 8 s).symm
  have hhigh : 256 ^ (s + 1) = 2 ^ (8 * (s + 1)) := (pow_mul 2 8 (s + 1)).symm
  rw [hlow, hhigh, ← Nat.le_log2 h0, ← Nat.log2_lt h0, size]
  omega

theorem bounds_of_size_eq {s : ℕ} (h0 : k.modulus ≠ 0) (hs : k.size = s) :
    256 ^ (s - 1) ≤ k.modulus ∧ k.modulus < 256 ^ s := by
  have hpos : s = s - 1 + 1 := by
    unfold size at hs
    omega
  rw [hpos] at hs ⊢
  exact (size_eq_succ_iff h0).1 hs

end PublicKey

/-! ### Padding -/

section
variable {digest : Bytes} (hdigest : digest.length = 32)
include hdigest

theorem digestInfo_eq : digestInfo digest =
    [0x30, 0x31, 0x30, 0x0d, 0x06, 0x09, 0x60, 0x86, 0x48, 0x01, 0x65, 0x03, 0x04, 0x02, 0x01,
      0x05, 0x00, 0x04, 0x20] ++ digest := by
  simp [digestInfo, Element.sequence, Element.octetString, Element.encode, Der.encode,
    Der.lengthOctets, Der.Tag.toOctet, hdigest]

theorem length_padded {size : ℕ} (hsize : 54 ≤ size) : (padded size digest).length = size := by
  have hinfo : (digestInfo digest).length = 51 := by
    rw [digestInfo_eq hdigest, List.length_append, hdigest]
    rfl
  simp only [padded, List.length_cons, List.length_append, List.length_replicate, hinfo]
  omega

/-- The first byte of a padded digest is zero, so that it is below every modulus of its size. -/
theorem toNat_padded_lt {k : PublicKey} (h0 : k.modulus ≠ 0) (hsize : 54 ≤ k.size) :
    Bytes.toNat (padded k.size digest) < k.modulus := by
  have hlow := (PublicKey.bounds_of_size_eq h0 rfl).1
  have hlength := length_padded hdigest hsize
  obtain ⟨rest, hrest⟩ : ∃ rest, padded k.size digest = 0 :: rest := ⟨_, rfl⟩
  rw [hrest, List.length_cons] at hlength
  have hlt := Bytes.toNat_lt rest
  rw [show rest.length = k.size - 1 by omega] at hlt
  rw [hrest, Bytes.toNat_zero_cons]
  exact lt_of_lt_of_le hlt hlow

/-! ### What is accepted -/

theorem verify_iff {k : PublicKey} {s : Bytes} (h0 : k.modulus ≠ 0) (hsize : 54 ≤ k.size) :
    verify k digest s = true ↔
      s.length = k.size ∧ Bytes.toNat s < k.modulus ∧
        powerMod k.modulus (Bytes.toNat s) k.exponent = Bytes.toNat (padded k.size digest) := by
  have hpower : powerMod k.modulus (Bytes.toNat s) k.exponent < 256 ^ k.size := by
    rw [powerMod_eq]
    exact (Nat.mod_lt _ (Nat.pos_of_ne_zero h0)).trans (PublicKey.bounds_of_size_eq h0 rfl).2
  rw [← Bytes.ofNat_eq_iff (length_padded hdigest hsize) hpower]
  simp only [verify, Bool.and_eq_true, beq_iff_eq, decide_eq_true_eq, and_assoc]

/-- A root is accepted, however it was found. -/
theorem verify_ofNat {k : PublicKey} {m : ℕ} (h0 : k.modulus ≠ 0) (hsize : 54 ≤ k.size)
    (hm : m < k.modulus)
    (hpower : powerMod k.modulus m k.exponent = Bytes.toNat (padded k.size digest)) :
    verify k digest (Bytes.ofNat k.size m) = true := by
  have hroot : Bytes.toNat (Bytes.ofNat k.size m) = m := by
    rw [Bytes.toNat_ofNat]
    exact Nat.mod_eq_of_lt (hm.trans (PublicKey.bounds_of_size_eq h0 rfl).2)
  refine (verify_iff hdigest h0 hsize).2 ⟨Bytes.length_ofNat _ _, ?_, ?_⟩
  · rwa [hroot]
  · rwa [hroot]

end

/-! ### What is signed -/

theorem signWith?_eq_some_iff {k : PrivateKey} {r : ℕ} {digest s : Bytes} :
    signWith? k r digest = some s ↔
      powerMod k.modulus (k.blindedRoot r (Bytes.toNat (padded k.size digest))) k.exponent =
          Bytes.toNat (padded k.size digest) ∧
        s = Bytes.ofNat k.size (k.blindedRoot r (Bytes.toNat (padded k.size digest))) := by
  unfold signWith?
  refine Option.ite_none_right_eq_some.trans (and_congr_right fun _ => ?_)
  rw [Option.some.injEq, eq_comm]

namespace PrivateKey

variable {k : PrivateKey} {digest : Bytes}

/-- **What signing can end with** is what some unit gives. -/
theorem yields_sign?_iff (hvalid : k.isValid = true) {x : Option Bytes} :
    (sign? k digest).Yields x ↔
      ∃ r, (r < k.modulus ∧ Nat.Coprime r k.modulus) ∧ signWith? k r digest = x := by
  have htries : blindingTries ≠ 0 := by decide
  simp only [sign?, Draw.yields_map, PublicKey.yields_drawUnit_iff (one_lt_modulus hvalid) htries]

variable (hdigest : digest.length = 32) (hsize : 54 ≤ k.size)
include hdigest hsize

/-- **What is signed is accepted**, whatever the unit is: the check of the root is that of the
signature. -/
theorem verify_of_signWith? (hvalid : k.isValid = true) {r : ℕ} {s : Bytes}
    (hs : signWith? k r digest = some s) :
    s.length = k.size ∧ verify k.toPublicKey digest s = true := by
  obtain ⟨hpower, rfl⟩ := signWith?_eq_some_iff.1 hs
  exact ⟨Bytes.length_ofNat _ _,
    verify_ofNat hdigest (modulus_pos hvalid).ne' hsize (blindedRoot_lt hvalid) hpower⟩

namespace HasPrimeFactors

variable (h : k.HasPrimeFactors)
include h

theorem signWith?_eq {r : ℕ} (hr : Nat.Coprime r k.modulus) : signWith? k r digest =
    some (Bytes.ofNat k.size (k.root (Bytes.toNat (padded k.size digest)))) := by
  have hm := toNat_padded_lt hdigest (modulus_pos h.valid).ne' hsize
  rw [signWith?_eq_some_iff, h.blindedRoot_eq hr hm]
  exact ⟨h.powerMod_root hm, rfl⟩

/-- **One signature**, whatever is drawn. -/
theorem exists_sign? : ∃ s, verify k.toPublicKey digest s = true ∧
    ∀ x, (sign? k digest).Yields x ↔ x = some s := by
  have hone := h.signWith?_eq hdigest hsize (Nat.coprime_one_left k.modulus)
  refine ⟨_, (verify_of_signWith? hdigest hsize h.valid hone).2, fun x => ?_⟩
  rw [yields_sign?_iff h.valid]
  constructor
  · rintro ⟨r, ⟨-, hr⟩, rfl⟩
    exact h.signWith?_eq hdigest hsize hr
  · rintro rfl
    exact ⟨1, ⟨one_lt_modulus h.valid, Nat.coprime_one_left _⟩, hone⟩

/-- **Only one signature is accepted** for each digest. -/
theorem eq_of_verify {s t : Bytes} (hs : verify k.toPublicKey digest s = true)
    (ht : verify k.toPublicKey digest t = true) : s = t := by
  have h0 := (modulus_pos h.valid).ne'
  obtain ⟨hsl, hsm, hsp⟩ := (verify_iff hdigest h0 hsize).1 hs
  obtain ⟨htl, htm, htp⟩ := (verify_iff hdigest h0 hsize).1 ht
  have heq := h.eq_of_powerMod_eq hsm htm (hsp.trans htp.symm)
  rw [← Bytes.ofNat_toNat s, ← Bytes.ofNat_toNat t, hsl, htl, heq]

end HasPrimeFactors

end PrivateKey

end MessageCrypto.Rsa
