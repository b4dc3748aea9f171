import MessageCrypto.Proofs.Agreement.Secret
import MessageCrypto.Proofs.Generation.Draw
import MessageCrypto.Proofs.P256.PrivateKey
import MessageCrypto.Proofs.Signing.Rsa

/-! # Generated pairs match

Both halves of a pair are written in DER, and it is the written form that is imported later. What
was drawn is read back from the private half and its public part from the public half, so that the
halves fit together wherever they are used.

* `KeyPair.MatchesScalar`, `KeyPair.exists_ofScalar`: every scalar has a pair that matches it.
* `KeyPair.MatchesRsa`, `KeyPair.exists_ofRsa`: so do the numbers of an RSA key of 2048 bits.
* `generated_key_pairs_match`: what the generators yield. -/

namespace MessageCrypto

/-! ### Pairs of a scalar -/

/-- **A pair matches a scalar**: it is what is imported from its own encodings, the scalar and its
public point are read from it, what one half signs the other accepts, it agrees on a key with every
other pair, and its public half is what is imported from its coordinates. -/
structure KeyPair.MatchesScalar (pair : KeyPair) (d : P256.Scalar) : Prop where
  import_private : PrivateKey.ofDer .ecdsa pair.privateKey.bytes = .ok pair.privateKey
  import_public : PublicKey.ofDer .ecdsa pair.publicKey.bytes = .ok pair.publicKey
  toScalar : pair.privateKey.toScalar = .ok d
  toPoint : ∃ q, pair.publicKey.toPoint = .ok q ∧
    q.toPoint = P256.Point.multiple d.val P256.Point.generator
  signs : ∀ data e, Ecdsa.sign pair.privateKey data = .error e →
    e = .signingFailed ∧ P256.Ecdsa.HasZero d (Hash.sha256 data)
  accepts : ∀ data s, Ecdsa.sign pair.privateKey data = .ok s →
    Ecdsa.verify pair.publicKey s data = .ok ()
  accepts_scheme : ∀ data s,
    (sign .ecdsaP256Sha256 (.privateHalf pair.privateKey) data).Yields (.ok s) →
      verify .ecdsaP256Sha256 (.publicHalf pair.publicKey) s data = true
  agrees : ∀ e other, KeyPair.ofScalar e = .ok other →
    ∃ key, agree pair.privateKey other.publicKey = .ok key ∧
      agree other.privateKey pair.publicKey = .ok key
  exports : ∃ x y, exportCoordinates pair.publicKey = .ok (x, y) ∧
    importCoordinates x y = .ok pair.publicKey

namespace KeyPair

variable {pair : KeyPair} {d : P256.Scalar}

/-- A pair is made of its own halves. -/
theorem exists_halves_iff {A : PrivateKey → Prop} {B : PublicKey → Prop} :
    (∃ a, A a ∧ ∃ b, B b ∧ (⟨a, b⟩ : KeyPair) = pair) ↔ A pair.privateKey ∧ B pair.publicKey := by
  constructor
  · rintro ⟨a, ha, b, hb, rfl⟩
    exact ⟨ha, hb⟩
  · rintro ⟨ha, hb⟩
    exact ⟨pair.privateKey, ha, pair.publicKey, hb, rfl⟩

theorem ofScalar_eq_ok_iff {q : P256.CurvePoint} (hq : d.publicPoint? = some q) :
    ofScalar d = .ok pair ↔
      (pair.privateKey.algorithm = .ecdsa ∧ pair.privateKey.bytes = d.toDer q) ∧
      (pair.publicKey.algorithm = .ecdsa ∧ pair.publicKey.bytes = q.toDer) := by
  simp only [ofScalar, hq, PrivateKey.write_eq (d.length_toDer_le q), bind_eq_ok_iff,
    PrivateKey.ofDer_eq_ok_iff, mapError_eq_ok_iff, PublicKey.ofPoint_eq_ok_iff, Except.ok.injEq]
  exact exists_halves_iff

/-- What is read from the halves of a pair. -/
theorem reads_of_ofScalar (h : ofScalar d = .ok pair) : pair.privateKey.toScalar = .ok d ∧
    ∃ q, pair.publicKey.toPoint = .ok q ∧ pair.publicKey.bytes = q.toDer ∧
      q.toPoint = P256.Point.multiple d.val P256.Point.generator := by
  obtain ⟨q, hq⟩ := d.exists_publicPoint
  obtain ⟨⟨ha, hbytes⟩, ha', hbytes'⟩ := (ofScalar_eq_ok_iff hq).1 h
  refine ⟨PrivateKey.toScalar_eq_ok_iff.2 ⟨ha, ?_⟩, q, PublicKey.toPoint_eq_ok_iff.2 ⟨ha', ?_⟩,
    hbytes', P256.Scalar.publicPoint?_eq_some_iff.1 hq⟩
  · rw [hbytes, P256.Scalar.ofDer?_toDer hq]
  · rw [hbytes', P256.CurvePoint.ofDer?_toDer]

theorem matchesScalar_of_ofScalar (h : ofScalar d = .ok pair) : pair.MatchesScalar d := by
  obtain ⟨hd, q, hq, hbytes, hdq⟩ := reads_of_ofScalar h
  have ha := (PrivateKey.toScalar_eq_ok_iff.1 hd).1
  have ha' := (PublicKey.toPoint_eq_ok_iff.1 hq).1
  exact {
    import_private := PrivateKey.ofDer_eq_ok_iff.2 ⟨ha, rfl⟩
    import_public := PublicKey.ofDer_eq_ok_iff.2 ⟨ha', rfl⟩
    toScalar := hd
    toPoint := ⟨q, hq, hdq⟩
    signs := fun data e he => (Ecdsa.sign_eq_error_iff hd).1 he
    accepts := fun data s hs => Ecdsa.verify_of_sign hd hq hdq hs
    accepts_scheme := fun data s hs =>
      verify_publicHalf_iff.2 (Ecdsa.verify_of_sign hd hq hdq (Draw.yields_pure.1 hs).symm)
    agrees := by
      intro e other hother
      obtain ⟨he, r, hr, -, her⟩ := reads_of_ofScalar hother
      refine ⟨_, agree_eq hd hr, ?_⟩
      rw [agree_eq he hq, her, hdq, sharedKey_comm]
    exports := ⟨_, _, exportCoordinates_eq_ok_iff.2 ⟨q, hq, rfl, rfl⟩,
      (importCoordinates_eq_ok_iff q).2 ⟨ha', hbytes⟩⟩ }

/-- **Every scalar has a pair** that matches it. -/
theorem exists_ofScalar (d : P256.Scalar) : ∃ pair, ofScalar d = .ok pair ∧ pair.MatchesScalar d := by
  obtain ⟨q, hq⟩ := d.exists_publicPoint
  obtain ⟨privateKey, hprivate⟩ := PrivateKey.exists_of_ne KeyAlgorithm.ecdsa_ne_aes256
    (Der.Element.encode_ne_nil _ : d.toDer q ≠ [])
  obtain ⟨publicKey, hpublic⟩ := PublicKey.exists_of_ne KeyAlgorithm.ecdsa_ne_aes256
    (Der.Element.encode_ne_nil _ : q.toDer ≠ [])
  have hok : ofScalar d = .ok ⟨privateKey, publicKey⟩ :=
    (ofScalar_eq_ok_iff hq).2 ⟨hprivate, hpublic⟩
  exact ⟨_, hok, matchesScalar_of_ofScalar hok⟩

end KeyPair

/-! ### Pairs of two factors -/

/-- **A pair matches the numbers of an RSA key**: it is what is imported from its own encodings, the
numbers are read from it, neither half is refused, and what one signs the other accepts, whatever is
drawn. If the factors are prime there is one signature for every message, and no other is
accepted. -/
structure KeyPair.MatchesRsa (pair : KeyPair) (k : Rsa.PrivateKey) : Prop where
  import_private : PrivateKey.ofDer .rsa pair.privateKey.bytes = .ok pair.privateKey
  import_public : PublicKey.ofDer .rsa pair.publicKey.bytes = .ok pair.publicKey
  private_toRsa : pair.privateKey.toRsa = .ok k
  public_toRsa : pair.publicKey.toRsa = .ok k.toPublicKey
  signs : ∀ data x, (Rsa2048.sign pair.privateKey data).Yields x → ¬ FailsWith .invalidKey x
  checks : ∀ s data, ¬ FailsWith .invalidKey (Rsa2048.verify pair.publicKey s data)
  accepts : ∀ data s, (Rsa2048.sign pair.privateKey data).Yields (.ok s) →
    Rsa2048.verify pair.publicKey s data = .ok ()
  of_prime : k.p.Prime → k.q.Prime → ∀ data,
    ∃ s, (∀ x, (Rsa2048.sign pair.privateKey data).Yields x ↔ x = .ok s) ∧
      ∀ s', Rsa2048.verify pair.publicKey s' data = .ok () ↔ s' = s

namespace Rsa.PrivateKey.IsGenerated

variable {k : Rsa.PrivateKey} (h : k.IsGenerated)
include h

theorem modulus_lt_pow : k.modulus < 256 ^ 256 :=
  h.high.trans_le (by decide +kernel)

theorem coefficient_lt : inverseMod k.q k.p < 256 ^ 256 := by
  have hp := p_pos h.isValid
  have hle : k.p ≤ k.modulus := by
    rw [← h.product]
    exact Nat.le_mul_of_pos_right _ (q_pos h.isValid)
  exact (inverseMod_lt _ hp).trans (hle.trans_lt h.modulus_lt_pow)

theorem size_eq : k.size = 256 := by
  have hlow : 2 ^ 2040 ≤ k.modulus := (by decide +kernel : 2 ^ 2040 ≤ 2 ^ 2047).trans h.low
  exact (Rsa2048.size_eq_iff (modulus_pos h.isValid).ne').2 ⟨hlow, h.high⟩

end Rsa.PrivateKey.IsGenerated

namespace KeyPair

variable {pair : KeyPair} {k : Rsa.PrivateKey} (hk : k.IsGenerated)
include hk

theorem ofRsa_eq_ok_iff : ofRsa k = .ok pair ↔
    (pair.privateKey.algorithm = .rsa ∧
      pair.privateKey.bytes = (k.toElement (Rsa.inverseMod k.q k.p)).encode) ∧
    (pair.publicKey.algorithm = .rsa ∧ pair.publicKey.bytes = k.toPublicKey.toDer) := by
  have hprivate : (k.toElement (Rsa.inverseMod k.q k.p)).encode.length ≤ Der.maxLength :=
    (Rsa.PrivateKey.length_encode_toElement_le hk.isValid hk.modulus_lt_pow
      (hk.inverse_lt.trans hk.modulus_lt_pow) hk.coefficient_lt (by decide)).trans (by decide)
  have hpublic : k.toPublicKey.toDer.length ≤ Der.maxLength :=
    Rsa.PublicKey.length_toDer_le (Rsa.PrivateKey.isValid_iff.1 hk.isValid).1 hk.modulus_lt_pow
      (by decide)
  simp only [ofRsa, PrivateKey.write_eq hprivate, PublicKey.write_eq hpublic, bind_eq_ok_iff,
    PrivateKey.ofDer_eq_ok_iff, PublicKey.ofDer_eq_ok_iff, Except.ok.injEq]
  exact exists_halves_iff

theorem matchesRsa_of_ofRsa (h : ofRsa k = .ok pair) : pair.MatchesRsa k := by
  obtain ⟨⟨ha, hbytes⟩, ha', hbytes'⟩ := (ofRsa_eq_ok_iff hk).1 h
  have hlt := hk.modulus_lt_pow
  have hread : pair.privateKey.toRsa = .ok k := PrivateKey.toRsa_eq_ok_iff.2 ⟨ha, by
    rw [hbytes, Rsa.PrivateKey.ofDer?_encode hk.isValid hlt (hk.inverse_lt.trans hlt)
      hk.coefficient_lt (by decide)]⟩
  have hread' : pair.publicKey.toRsa = .ok k.toPublicKey := PublicKey.toRsa_eq_ok_iff.2 ⟨ha', by
    rw [hbytes', Rsa.PublicKey.ofDer?_toDer (Rsa.PrivateKey.isValid_iff.1 hk.isValid).1 hlt
      (by decide)]⟩
  exact {
    import_private := PrivateKey.ofDer_eq_ok_iff.2 ⟨ha, rfl⟩
    import_public := PublicKey.ofDer_eq_ok_iff.2 ⟨ha', rfl⟩
    private_toRsa := hread
    public_toRsa := hread'
    signs := fun data x hx => by
      rw [Rsa2048.sign_failsWith_iff hread hx]
      exact not_not.2 hk.size_eq
    checks := fun s data => by
      rw [Rsa2048.verify_failsWith_iff hread']
      exact not_not.2 hk.size_eq
    accepts := fun data s hs => (Rsa2048.verify_of_sign hread hread' hk.size_eq hs).2
    of_prime := fun hp hq data => Rsa2048.exists_sign hread hread' hk.size_eq hp hq hk.ne }

/-- **The numbers of a key of 2048 bits have a pair** that matches them. -/
theorem exists_ofRsa : ∃ pair, ofRsa k = .ok pair ∧ pair.MatchesRsa k := by
  obtain ⟨privateKey, hprivate⟩ := PrivateKey.exists_of_ne KeyAlgorithm.rsa_ne_aes256
    (Der.Element.encode_ne_nil (k.toElement (Rsa.inverseMod k.q k.p)))
  obtain ⟨publicKey, hpublic⟩ := PublicKey.exists_of_ne KeyAlgorithm.rsa_ne_aes256
    (Der.Element.encode_ne_nil _ : k.toPublicKey.toDer ≠ [])
  have hok : ofRsa k = .ok ⟨privateKey, publicKey⟩ :=
    (ofRsa_eq_ok_iff hk).2 ⟨hprivate, hpublic⟩
  exact ⟨_, hok, matchesRsa_of_ofRsa hk hok⟩

end KeyPair

/-! ### Main statement -/

/-- **Generated pairs match.** What is generated for P-256 is the pair of a scalar that was drawn,
and matches it; so does the pair of any scalar. What is generated for RSA is the pair of numbers
that were drawn, unless no prime was found; these are the numbers of a key of 2048 bits, and the
pair of any such numbers matches them. -/
theorem generated_key_pairs_match :
    (∀ r, KeyPair.generateEc.Yields r → ∃ d pair, P256.Scalar.draw.Yields d ∧
      KeyPair.ofScalar d = .ok pair ∧ r = .ok pair ∧ pair.MatchesScalar d) ∧
    (∀ d, ∃ pair, KeyPair.ofScalar d = .ok pair ∧ pair.MatchesScalar d) ∧
    (∀ r, KeyPair.generateRsa.Yields r → r = .error .noPrimeFound ∨
      ∃ k pair, Rsa.PrivateKey.draw.Yields (some k) ∧ k.IsGenerated ∧
        KeyPair.ofRsa k = .ok pair ∧ r = .ok pair ∧ pair.MatchesRsa k) ∧
    ∀ k : Rsa.PrivateKey, k.IsGenerated →
      ∃ pair, KeyPair.ofRsa k = .ok pair ∧ pair.MatchesRsa k := by
  refine ⟨fun r hr => ?_, KeyPair.exists_ofScalar, fun r hr => ?_, fun k => KeyPair.exists_ofRsa⟩
  · obtain ⟨d, rfl⟩ := KeyPair.yields_generateEc_iff.1 hr
    obtain ⟨pair, hpair, hmatches⟩ := KeyPair.exists_ofScalar d
    exact ⟨d, pair, d.yields_draw, hpair, hpair, hmatches⟩
  · rcases KeyPair.yields_generateRsa_iff.1 hr with ⟨-, rfl⟩ | ⟨k, hdraw, rfl⟩
    · exact .inl rfl
    · have hgenerated := Rsa.PrivateKey.isGenerated_of_yields hdraw
      obtain ⟨pair, hpair, hmatches⟩ := KeyPair.exists_ofRsa hgenerated
      exact .inr ⟨k, pair, hdraw, hgenerated, hpair, hpair, hmatches⟩

/-! ### A key that can be drawn -/

/-- A key with two primes of 1024 bits, whose product has 2048 bits. -/
def fullRsaKey : Rsa.PrivateKey := .ofPrimes (prothNumber 12583323 999) (prothNumber 12584833 999)

theorem yields_fullRsaKey : Rsa.PrivateKey.draw.Yields (some fullRsaKey) := by
  have hp : (prothNumber 12583323 999).Prime :=
    prime_prothNumber 11 (by decide) (by decide +kernel) (by decide +kernel)
  have hq : (prothNumber 12584833 999).Prime :=
    prime_prothNumber 3 (by decide) (by decide +kernel) (by decide +kernel)
  exact Rsa.PrivateKey.yields_draw_iff.2 ⟨_, _,
    { odd := by decide +kernel
      low := by decide +kernel
      high := by decide +kernel
      ne := hp.ne_zero
      predecessor := by decide +kernel
      passes := isProbablePrime_of_prime hp (by decide +kernel) },
    { odd := by decide +kernel
      low := by decide +kernel
      high := by decide +kernel
      ne := by decide +kernel
      predecessor := by decide +kernel
      passes := isProbablePrime_of_prime hq (by decide +kernel) }, rfl⟩

/-- Both generators can yield a pair, and these match what was drawn. -/
theorem generated_key_pairs_match_drawn :
    KeyPair.generateEc.Yields (KeyPair.ofScalar unitScalar) ∧
    (∃ pair, KeyPair.ofScalar unitScalar = .ok pair ∧ pair.MatchesScalar unitScalar) ∧
    KeyPair.generateRsa.Yields (KeyPair.ofRsa fullRsaKey) ∧ fullRsaKey.IsGenerated ∧
    ∃ pair, KeyPair.ofRsa fullRsaKey = .ok pair ∧ pair.MatchesRsa fullRsaKey := by
  obtain ⟨-, hscalar, -, hrsa⟩ := generated_key_pairs_match
  have hgenerated := Rsa.PrivateKey.isGenerated_of_yields yields_fullRsaKey
  exact ⟨KeyPair.yields_generateEc_iff.2 ⟨_, rfl⟩, hscalar unitScalar,
    KeyPair.yields_generateRsa_iff.2 (.inr ⟨_, yields_fullRsaKey, rfl⟩), hgenerated,
    hrsa _ hgenerated⟩

end MessageCrypto
