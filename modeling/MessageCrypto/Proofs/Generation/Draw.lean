import MessageCrypto.Proofs.Generation.Primes
import MessageCrypto.Proofs.Draw
import MessageCrypto.Proofs.Rsa.Key

/-! # What is drawn for a pair

Every scalar can be drawn, and nothing else. The two primes of an RSA key are odd numbers of 1024
bits with both highest bits set, so that their product has exactly 2048 bits; the exponent is
coprime to their predecessors, and so has an inverse.

* `P256.Scalar.yields_draw`: every scalar can be drawn.
* `Rsa.yields_drawPrime_iff`, `Rsa.PrivateKey.yields_draw_iff`: the primes and keys that can be.
* `Rsa.PrivateKey.IsGenerated`: the numbers of a key of 2048 bits;
  `Rsa.PrivateKey.isGenerated_of_yields`: what is drawn are such numbers. -/

namespace MessageCrypto

/-! ### Scalars -/

/-- **Every scalar can be drawn**: from the bytes of its predecessor. -/
theorem P256.Scalar.yields_draw (d : P256.Scalar) : P256.Scalar.draw.Yields d := by
  have hlt : d.val - 1 < P256.n - 1 := by
    have hpos := d.pos
    have hlt := d.lt
    omega
  have hwidth : d.val - 1 < Nat.pow 256 40 := hlt.trans (by decide)
  refine Draw.yields_map.2 ⟨Bytes.ofNat 40 (d.val - 1), Draw.yields_bytes.2 (Bytes.length_ofNat _ _),
    ?_⟩
  have hval : (d.val - 1) % (P256.n - 1) + 1 = d.val := by
    rw [Nat.mod_eq_of_lt hlt]
    exact Nat.sub_add_cancel d.pos
  rw [Bytes.toNat_ofNat, Nat.mod_eq_of_lt hwidth, reduce, Scalar.mk.injEq, hval]

theorem KeyPair.yields_generateEc_iff {r : Except Error KeyPair} :
    generateEc.Yields r ↔ ∃ d, ofScalar d = r := by
  simp only [generateEc, Draw.yields_map, P256.Scalar.yields_draw, true_and]

namespace Rsa

/-! ### Candidates -/

section
variable {m w : ℕ}

theorem or_one_of_odd (h : m % 2 = 1) : m ||| 1 = m := by
  apply Nat.eq_of_testBit_eq
  intro i
  rw [Nat.testBit_or]
  cases i with
  | zero => simp [h]
  | succ i => simp [Nat.testBit_succ]

theorem three_mul_le_or (a : ℕ) : 3 * 2 ^ w ≤ a % (1 <<< w) ||| (3 <<< w) ||| 1 := by
  rw [← Nat.shiftLeft_eq]
  exact Nat.right_le_or.trans Nat.left_le_or

theorem or_lt_four_mul (a : ℕ) (hw : 0 < w) :
    a % (1 <<< w) ||| (3 <<< w) ||| 1 < 4 * 2 ^ w := by
  have hpos : 1 < 2 ^ w := Nat.one_lt_two_pow hw.ne'
  have hmod := Nat.mod_lt a (Nat.two_pow_pos w)
  have hfour : 4 * 2 ^ w = 2 ^ (2 + w) := (pow_add 2 2 w).symm
  rw [Nat.one_shiftLeft, Nat.shiftLeft_eq, hfour]
  refine Nat.or_lt_two_pow (Nat.or_lt_two_pow ?_ ?_) ?_ <;> rw [← hfour] <;> omega

/-- A number that starts with two set bits and ends with one is not changed by setting them. -/
theorem or_eq_of_bounds (hodd : m % 2 = 1) (hlow : 3 * 2 ^ w ≤ m) (hhigh : m < 4 * 2 ^ w) :
    m % (1 <<< w) ||| (3 <<< w) ||| 1 = m := by
  have hlt := Nat.mod_lt m (Nat.two_pow_pos w)
  have hdiv : m / 2 ^ w = 3 := Nat.div_eq_of_lt_le hlow (by omega)
  have hsplit := Nat.div_add_mod m (2 ^ w)
  rw [hdiv] at hsplit
  rw [Nat.one_shiftLeft, Nat.shiftLeft_eq, Nat.or_comm (m % _), mul_comm 3,
    ← Nat.two_pow_add_eq_or_of_lt hlt, hsplit, or_one_of_odd hodd]

end

/-- An odd number of 1024 bits whose two highest bits are set. -/
structure IsCandidate (m : ℕ) : Prop where
  odd : m % 2 = 1
  low : 3 * 2 ^ 1022 ≤ m
  high : m < 4 * 2 ^ 1022

theorem isCandidate_candidate (bytes : Bytes) : IsCandidate (candidate bytes) where
  odd := Nat.or_mod_two_eq_one.2 (.inr rfl)
  low := three_mul_le_or _
  high := or_lt_four_mul _ (Nat.succ_pos _)

/-- Every such number is the candidate of its own bytes. -/
theorem candidate_ofNat {m : ℕ} (hm : IsCandidate m) : candidate (Bytes.ofNat 128 m) = m := by
  have hwidth : m < Nat.pow 256 128 := lt_of_lt_of_le hm.high (by decide +kernel)
  rw [candidate, Bytes.toNat_ofNat, Nat.mod_eq_of_lt hwidth]
  exact or_eq_of_bounds hm.odd hm.low hm.high

/-! ### Primes -/

/-- What is drawn as a prime beside another number. -/
structure IsDrawable (other m : ℕ) : Prop extends IsCandidate m where
  ne : m ≠ other
  predecessor : (m - 1) % publicExponent ≠ 0
  passes : isProbablePrime m = true

theorem isDrawable_of_yields {other m tries : ℕ} (h : (drawPrime other tries).Yields (some m)) :
    IsDrawable other m := by
  induction tries with
  | zero =>
    rw [drawPrime, Draw.yields_pure] at h
    cases h
  | succ k ih =>
    obtain ⟨bytes, -, h⟩ := Draw.yields_bind_iff.1 h
    simp only at h
    split_ifs at h with hdraw
    · rw [Draw.yields_pure] at h
      rw [Option.some.inj h]
      exact ⟨isCandidate_candidate bytes, hdraw.1, hdraw.2.1, hdraw.2.2⟩
    · exact ih h

theorem yields_drawPrime {other m : ℕ} (h : IsDrawable other m) (tries : ℕ) :
    (drawPrime other (tries + 1)).Yields (some m) := by
  refine Draw.yields_bind_iff.2 ⟨_, Draw.yields_bytes.2 (Bytes.length_ofNat 128 m), ?_⟩
  simp only [candidate_ofNat h.toIsCandidate]
  rw [if_pos ⟨h.ne, h.predecessor, h.passes⟩, Draw.yields_pure]

/-- **What is drawn as a prime**, with one try or more. -/
theorem yields_drawPrime_iff {other m : ℕ} (tries : ℕ) :
    (drawPrime other (tries + 1)).Yields (some m) ↔ IsDrawable other m :=
  ⟨isDrawable_of_yields, fun h => yields_drawPrime h tries⟩

/-! ### Keys -/

namespace PrivateKey

/-- **The keys that are drawn.** -/
theorem yields_draw_iff {k : PrivateKey} : PrivateKey.draw.Yields (some k) ↔
    ∃ p q, IsDrawable 0 p ∧ IsDrawable p q ∧ k = ofPrimes p q := by
  rw [PrivateKey.draw, Draw.yields_bind_iff]
  constructor
  · rintro ⟨_ | p, hp, h⟩
    · rw [Draw.yields_pure] at h
      cases h
    · obtain ⟨_ | q, hq, h⟩ := Draw.yields_bind_iff.1 h
      · rw [Draw.yields_pure] at h
        cases h
      · rw [Draw.yields_pure] at h
        exact ⟨p, q, (yields_drawPrime_iff 19999).1 hp, (yields_drawPrime_iff 19999).1 hq,
          Option.some.inj h⟩
  · rintro ⟨p, q, hp, hq, rfl⟩
    exact ⟨some p, (yields_drawPrime_iff 19999).2 hp, Draw.yields_bind_iff.2
      ⟨some q, (yields_drawPrime_iff 19999).2 hq, Draw.yields_pure.2 rfl⟩⟩

/-- **The numbers of a key of 2048 bits**: the modulus is the product of two different factors, the
exponent is odd and has 33 bits at most, and its inverse, one modulo both factors less one, is below
the modulus. That the factors are prime is not among the conditions. -/
structure IsGenerated (k : PrivateKey) : Prop where
  product : k.p * k.q = k.modulus
  ne : k.p ≠ k.q
  odd : k.modulus % 2 = 1
  low : 2 ^ 2047 ≤ k.modulus
  high : k.modulus < 2 ^ 2048
  odd_exponent : k.exponent % 2 = 1
  one_lt_exponent : 1 < k.exponent
  exponent_lt : k.exponent < 2 ^ 33
  inverse_p : k.exponent * k.inverse % (k.p - 1) = 1
  inverse_q : k.exponent * k.inverse % (k.q - 1) = 1
  inverse_lt : k.inverse < k.modulus

theorem IsGenerated.isValid {k : PrivateKey} (h : k.IsGenerated) : k.isValid = true := by
  have hlog : k.exponent.log2 < 33 :=
    (Nat.log2_lt (Nat.ne_of_gt (Nat.zero_lt_of_lt h.one_lt_exponent))).2 h.exponent_lt
  have hlt : k.exponent < k.modulus :=
    h.exponent_lt.trans_le ((by decide +kernel : 2 ^ 33 ≤ 2 ^ 2047).trans h.low)
  exact isValid_iff.2 ⟨PublicKey.isValid_iff.2
    ⟨h.odd, hlt, h.odd_exponent, h.one_lt_exponent, hlog⟩, h.product, h.inverse_p, h.inverse_q⟩

theorem prime_publicExponent : publicExponent.Prime :=
  prime_prothNumber (k := 1) (m := 15) 3 (by decide) (by decide) (by decide +kernel)

theorem coprime_predecessor {other m : ℕ} (h : IsDrawable other m) :
    Nat.Coprime publicExponent (m - 1) :=
  (Nat.Prime.coprime_iff_not_dvd prime_publicExponent).2
    fun hdvd => h.predecessor (Nat.mod_eq_zero_of_dvd hdvd)

theorem three_le {m : ℕ} (h : IsCandidate m) : 3 ≤ m :=
  (by decide +kernel : 3 ≤ 3 * 2 ^ 1022).trans h.low

/-- The product of two candidates has exactly 2048 bits. -/
theorem bounds_mul {p q : ℕ} (hp : IsCandidate p) (hq : IsCandidate q) :
    2 ^ 2047 ≤ p * q ∧ p * q < 2 ^ 2048 := by
  have hlow : 2 ^ 2047 ≤ 3 * 2 ^ 1022 * (3 * 2 ^ 1022) := by decide +kernel
  have hhigh : 4 * 2 ^ 1022 * (4 * 2 ^ 1022) = 2 ^ 2048 := by decide +kernel
  refine ⟨hlow.trans (Nat.mul_le_mul hp.low hq.low), ?_⟩
  rw [← hhigh]
  exact Nat.mul_lt_mul'' hp.high hq.high

/-- **What is drawn are the numbers of a key of 2048 bits.** -/
theorem isGenerated_of_yields {k : PrivateKey} (h : PrivateKey.draw.Yields (some k)) :
    k.IsGenerated := by
  obtain ⟨p, q, hp, hq, rfl⟩ := yields_draw_iff.1 h
  have hp3 := three_le hp.toIsCandidate
  have hq3 := three_le hq.toIsCandidate
  obtain ⟨hlow, hhigh⟩ := bounds_mul hp.toIsCandidate hq.toIsCandidate
  have hexponent : publicExponent < p * q :=
    (by decide +kernel : publicExponent < 2 ^ 2047).trans_le hlow
  have hcoprime := Nat.Coprime.mul_right (coprime_predecessor hp) (coprime_predecessor hq)
  have hvalid := isValid_ofPrimes hp.odd hq.odd hp3 hq3 hexponent hcoprime
  obtain ⟨hpublic, hproduct, hinverse_p, hinverse_q⟩ := isValid_iff.1 hvalid
  exact {
    product := hproduct
    ne := hq.ne.symm
    odd := (PublicKey.isValid_iff.1 hpublic).1
    low := hlow
    high := hhigh
    odd_exponent := (PublicKey.isValid_iff.1 hpublic).2.2.1
    one_lt_exponent := (PublicKey.isValid_iff.1 hpublic).2.2.2.1
    exponent_lt := (by decide : publicExponent < 2 ^ 33)
    inverse_p := hinverse_p
    inverse_q := hinverse_q
    inverse_lt := inverse_ofPrimes_lt (by omega) (by omega) }

end PrivateKey

end Rsa

theorem KeyPair.yields_generateRsa_iff {r : Except Error KeyPair} :
    generateRsa.Yields r ↔
      Rsa.PrivateKey.draw.Yields none ∧ r = .error .noPrimeFound ∨
      ∃ k, Rsa.PrivateKey.draw.Yields (some k) ∧ r = ofRsa k := by
  rw [generateRsa, Draw.yields_bind_iff]
  constructor
  · rintro ⟨_ | k, hdraw, hr⟩
    · exact .inl ⟨hdraw, Draw.yields_pure.1 hr⟩
    · exact .inr ⟨k, hdraw, Draw.yields_pure.1 hr⟩
  · rintro (⟨hdraw, rfl⟩ | ⟨k, hdraw, rfl⟩)
    · exact ⟨none, hdraw, Draw.yields_pure.2 rfl⟩
    · exact ⟨some k, hdraw, Draw.yields_pure.2 rfl⟩

end MessageCrypto
