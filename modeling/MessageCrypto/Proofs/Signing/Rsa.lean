import MessageCrypto.Proofs.Rsa.Key
import MessageCrypto.Proofs.Rsa.Signature
import MessageCrypto.Proofs.Signing.Check
import MessageCrypto.Proofs.Signing.Reading

/-! # RSA signatures under keys

The size of a modulus is counted in whole bytes: moduli of 2041 to 2048 bits pass. With a key that
passes, signing and checking are those of the numbers that the key holds.

* `Rsa2048.sign_failsWith_iff`, `Rsa2048.verify_failsWith_iff`: which keys are refused.
* `Rsa2048.verify_of_sign`: what is signed is accepted, whatever is drawn and whatever the factors
  are.
* `Rsa2048.exists_sign`: with distinct primes there is one signature for all draws, and no other is
  accepted. -/

namespace MessageCrypto

namespace Rsa2048

variable {key : PrivateKey} {peer : PublicKey} {k : Rsa.PrivateKey} {k' : Rsa.PublicKey}
  {s data : Bytes}

/-! ### The size of the modulus -/

theorem isValid_of_toRsa (hk : key.toRsa = .ok k) : k.isValid = true :=
  Rsa.PrivateKey.isValid_of_ofDer? (PrivateKey.toRsa_eq_ok_iff.1 hk).2

theorem modulus_ne_zero_of_toRsa (hk : peer.toRsa = .ok k') : k'.modulus ≠ 0 := by
  have hvalid := Rsa.PublicKey.isValid_of_ofDer? (PublicKey.toRsa_eq_ok_iff.1 hk).2
  have hodd := (Rsa.PublicKey.isValid_iff.1 hvalid).1
  omega

theorem size_eq_iff (h0 : k'.modulus ≠ 0) :
    k'.size = 256 ↔ 2 ^ 2040 ≤ k'.modulus ∧ k'.modulus < 2 ^ 2048 := by
  rw [← Nat.le_log2 h0, ← Nat.log2_lt h0, Rsa.PublicKey.size]
  omega

theorem size_ne_iff (h0 : k'.modulus ≠ 0) :
    k'.size ≠ 256 ↔ k'.modulus < 2 ^ 2040 ∨ 2 ^ 2048 ≤ k'.modulus := by
  rw [Ne, size_eq_iff h0, not_and_or, not_le, not_lt]

theorem checkSize_of_eq (h : k'.size = 256) : checkSize k' = .ok () := if_pos (by rw [h]; rfl)

theorem checkSize_of_ne (h : k'.size ≠ 256) :
    checkSize k' = .error (.modulusSize (8 * k'.size)) := if_neg (by unfold modulusBits; omega)

/-! ### Signing -/

section
variable (hk : key.toRsa = .ok k)
include hk

theorem signingKey_of_size_eq (h : k.size = 256) : signingKey key = .ok k := by
  rw [signingKey, hk]
  refine (pure_bind k _).trans ?_
  rw [checkSize_of_eq h]
  rfl

theorem signingKey_of_size_ne (h : k.size ≠ 256) :
    signingKey key = .error (.modulusSize (8 * k.size)) := by
  rw [signingKey, hk]
  refine (pure_bind k _).trans ?_
  rw [checkSize_of_ne h]
  rfl

theorem sign_of_size_ne (h : k.size ≠ 256) :
    Rsa2048.sign key data = pure (.error (.modulusSize (8 * k.size))) := by
  rw [Rsa2048.sign, signingKey_of_size_ne hk h]
  rfl

/-- With a key of the right size signing ends as it does with the numbers of the key. -/
theorem yields_sign_iff (h : k.size = 256) {x : Except Error Bytes} :
    (Rsa2048.sign key data).Yields x ↔ ∃ s, (Rsa.sign? k (Hash.sha256 data)).Yields s ∧
      s.elim (.error .signingFailed) .ok = x := by
  rw [Rsa2048.sign, signingKey_of_size_eq hk h]
  exact Draw.yields_map

theorem yields_sign_ok_iff (h : k.size = 256) :
    (Rsa2048.sign key data).Yields (.ok s) ↔
      (Rsa.sign? k (Hash.sha256 data)).Yields (some s) := by
  rw [yields_sign_iff hk h]
  constructor
  · rintro ⟨_ | t, ht, heq⟩
    · cases heq
    · rwa [← Except.ok.inj heq]
  · exact fun hs => ⟨some s, hs, rfl⟩

/-- **Which keys are refused for signing**, whatever is drawn: those whose modulus does not take 256
bytes. -/
theorem sign_failsWith_iff {x : Except Error Bytes} (hx : (Rsa2048.sign key data).Yields x) :
    FailsWith .invalidKey x ↔ k.size ≠ 256 := by
  by_cases h : k.size = 256
  · obtain ⟨_ | t, -, rfl⟩ := (yields_sign_iff hk h).1 hx
    · simp [failsWith_error_iff, Error.kind, h]
    · simp [FailsWith, h]
  · rw [sign_of_size_ne hk h, Draw.yields_pure] at hx
    rw [hx, failsWith_error_iff]
    simp [Error.kind, h]

end

/-! ### Checking -/

section
variable (hk : peer.toRsa = .ok k')
include hk

theorem verify_of_size_eq (h : k'.size = 256) :
    Rsa2048.verify peer s data = accept (Rsa.verify k' (Hash.sha256 data) s) := by
  rw [Rsa2048.verify, hk]
  refine (pure_bind k' _).trans ?_
  rw [checkSize_of_eq h]
  rfl

theorem verify_of_size_ne (h : k'.size ≠ 256) :
    Rsa2048.verify peer s data = .error (.modulusSize (8 * k'.size)) := by
  rw [Rsa2048.verify, hk]
  refine (pure_bind k' _).trans ?_
  rw [checkSize_of_ne h]
  rfl

theorem verify_eq_ok_iff (h : k'.size = 256) :
    Rsa2048.verify peer s data = .ok () ↔ Rsa.verify k' (Hash.sha256 data) s = true := by
  rw [verify_of_size_eq hk h, accept_eq_ok_iff]

/-- **Which keys are refused for checking**: those whose modulus does not take 256 bytes. -/
theorem verify_failsWith_iff :
    FailsWith .invalidKey (Rsa2048.verify peer s data) ↔ k'.size ≠ 256 := by
  by_cases h : k'.size = 256
  · rw [verify_of_size_eq hk h]
    cases Rsa.verify k' (Hash.sha256 data) s with
    | false => simp [accept, failsWith_error_iff, Error.kind, h]
    | true => simp [accept, FailsWith, h]
  · rw [verify_of_size_ne hk h, failsWith_error_iff]
    simp [Error.kind, h]

end

/-! ### Signing and checking -/

section
variable (hk : key.toRsa = .ok k) (hpeer : peer.toRsa = .ok k.toPublicKey) (h : k.size = 256)
include hk hpeer h

theorem verify_of_sign (hs : (Rsa2048.sign key data).Yields (.ok s)) :
    s.length = 256 ∧ Rsa2048.verify peer s data = .ok () := by
  have hvalid := isValid_of_toRsa hk
  obtain ⟨r, -, hr⟩ := (Rsa.PrivateKey.yields_sign?_iff hvalid).1 ((yields_sign_ok_iff hk h).1 hs)
  obtain ⟨hlength, haccept⟩ := Rsa.PrivateKey.verify_of_signWith? (Hash.length_sha256 data)
    (h.symm ▸ by decide) hvalid hr
  exact ⟨hlength.trans h, (verify_eq_ok_iff hpeer h).2 haccept⟩

theorem exists_sign (hp : k.p.Prime) (hq : k.q.Prime) (hne : k.p ≠ k.q) :
    ∃ signature, (∀ x, (Rsa2048.sign key data).Yields x ↔ x = .ok signature) ∧
      ∀ s, Rsa2048.verify peer s data = .ok () ↔ s = signature := by
  have hfactors : k.HasPrimeFactors := ⟨isValid_of_toRsa hk, hp, hq, hne⟩
  have hsize : 54 ≤ k.size := h.symm ▸ by decide
  have hdigest := Hash.length_sha256 data
  obtain ⟨signature, haccept, hsign⟩ := hfactors.exists_sign? hdigest hsize
  refine ⟨signature, fun x => ?_, fun s => ?_⟩
  · simp only [yields_sign_iff hk h, hsign, exists_eq_left, Option.elim_some, eq_comm]
  · rw [verify_eq_ok_iff hpeer h]
    constructor
    · exact fun hs => hfactors.eq_of_verify hdigest hsize hs haccept
    · rintro rfl
      exact haccept

end

end Rsa2048

/-! ### Keys of 2047 and of 4 bits -/

/-- A key with two primes of 1024 bits, whose product has 2047 bits. -/
def shortRsaKey : Rsa.PrivateKey := .ofPrimes (prothNumber 10000213 999) (prothNumber 9000153 999)

def shortPrivateKey : PrivateKey :=
  ⟨⟨.rsa, (shortRsaKey.toElement (Rsa.inverseMod shortRsaKey.q shortRsaKey.p)).encode, by decide,
    List.cons_ne_nil _ _⟩⟩

def shortPublicKey : PublicKey :=
  ⟨⟨.rsa, shortRsaKey.toPublicKey.toDer, by decide, List.cons_ne_nil _ _⟩⟩

theorem hasPrimeFactors_shortRsaKey : shortRsaKey.HasPrimeFactors where
  valid := Rsa.PrivateKey.isValid_ofPrimes (by decide +kernel) (by decide +kernel)
    (by decide +kernel) (by decide +kernel) (by decide +kernel) (by decide +kernel)
  prime_p := prime_prothNumber 3 (by decide) (by decide +kernel) (by decide +kernel)
  prime_q := prime_prothNumber 7 (by decide) (by decide +kernel) (by decide +kernel)
  ne := by decide +kernel

theorem bounds_shortRsaKey : 2 ^ 2040 ≤ shortRsaKey.modulus ∧ shortRsaKey.modulus < 2 ^ 2047 := by
  decide +kernel

/-- All numbers of the key have a place in 256 bytes. -/
theorem lt_shortRsaKey : shortRsaKey.modulus < 256 ^ 256 ∧ shortRsaKey.inverse < 256 ^ 256 ∧
    Rsa.inverseMod shortRsaKey.q shortRsaKey.p < 256 ^ 256 := by
  have hinverse : shortRsaKey.inverse < shortRsaKey.modulus :=
    Rsa.PrivateKey.inverse_ofPrimes_lt (by decide +kernel) (by decide +kernel)
  have hcoefficient : Rsa.inverseMod shortRsaKey.q shortRsaKey.p < shortRsaKey.p :=
    Rsa.inverseMod_lt _ (by decide +kernel)
  have hp : shortRsaKey.p < shortRsaKey.modulus := by decide +kernel
  have hlt : shortRsaKey.modulus < 256 ^ 256 := by decide +kernel
  exact ⟨hlt, hinverse.trans hlt, hcoefficient.trans (hp.trans hlt)⟩

theorem ofBare?_shortPrivateKey :
    Rsa.PrivateKey.ofBare? shortPrivateKey.bytes = some shortRsaKey := by
  obtain ⟨hlt, hinverse, hcoefficient⟩ := lt_shortRsaKey
  exact Rsa.PrivateKey.ofBare?_encode hasPrimeFactors_shortRsaKey.valid hlt hinverse hcoefficient
    (by decide)

theorem toRsa_shortPrivateKey : shortPrivateKey.toRsa = .ok shortRsaKey :=
  PrivateKey.toRsa_eq_ok_iff.2 ⟨rfl, Rsa.PrivateKey.ofDer?_of_ofBare? ofBare?_shortPrivateKey⟩

theorem toRsa_shortPublicKey : shortPublicKey.toRsa = .ok shortRsaKey.toPublicKey := by
  have hvalid := (Rsa.PrivateKey.isValid_iff.1 hasPrimeFactors_shortRsaKey.valid).1
  have hlt : shortRsaKey.modulus < 256 ^ 256 := by decide +kernel
  exact PublicKey.toRsa_eq_ok_iff.2 ⟨rfl, Rsa.PublicKey.ofDer?_toDer hvalid hlt (by decide)⟩

/-- A key with the factors 3 and 5. -/
def tinyRsaKey : Rsa.PrivateKey := ⟨⟨15, 3⟩, 3, 3, 5⟩

def tinyPrivateKey : PrivateKey :=
  ⟨⟨.rsa, (tinyRsaKey.toElement 2).encode, by decide, List.cons_ne_nil _ _⟩⟩

def tinyPublicKey : PublicKey :=
  ⟨⟨.rsa, tinyRsaKey.toPublicKey.toDer, by decide, List.cons_ne_nil _ _⟩⟩

/-! ### Main statements -/

/-- **RSA signatures are correct and unique.** Whatever the factors are and whatever is drawn, what
is signed has the size of the modulus and is accepted. If the factors are distinct primes, every
message has a signature, which is the outcome of every draw, and no other byte string is accepted for
the message. -/
theorem rsa_signature_correct_and_unique {key : PrivateKey} {peer : PublicKey} {k : Rsa.PrivateKey}
    (hk : key.toRsa = .ok k) (hpeer : peer.toRsa = .ok k.toPublicKey)
    (hlow : 2 ^ 2040 ≤ k.modulus) (hhigh : k.modulus < 2 ^ 2048) (data : Bytes) :
    (∀ s, (Rsa2048.sign key data).Yields (.ok s) →
      s.length = 256 ∧ Rsa2048.verify peer s data = .ok ()) ∧
    (k.p.Prime → k.q.Prime → k.p ≠ k.q →
      ∃ signature, (∀ x, (Rsa2048.sign key data).Yields x ↔ x = .ok signature) ∧
        ∀ s, Rsa2048.verify peer s data = .ok () ↔ s = signature) := by
  have hsize : k.size = 256 :=
    (Rsa2048.size_eq_iff (Rsa2048.modulus_ne_zero_of_toRsa hpeer)).2 ⟨hlow, hhigh⟩
  exact ⟨fun s hs => Rsa2048.verify_of_sign hk hpeer hsize hs,
    fun hp hq hne => Rsa2048.exists_sign hk hpeer hsize hp hq hne⟩

/-- The short key has distinct primes, and so exactly one signature of the empty message. -/
theorem rsa_signature_correct_and_unique_short :
    shortPrivateKey.toRsa = .ok shortRsaKey ∧
    shortPublicKey.toRsa = .ok shortRsaKey.toPublicKey ∧
    (2 ^ 2040 ≤ shortRsaKey.modulus ∧ shortRsaKey.modulus < 2 ^ 2048) ∧
    (shortRsaKey.p.Prime ∧ shortRsaKey.q.Prime ∧ shortRsaKey.p ≠ shortRsaKey.q) ∧
    ∃ signature, (∀ x, (Rsa2048.sign shortPrivateKey []).Yields x ↔ x = .ok signature) ∧
      signature.length = 256 ∧
      ∀ s, Rsa2048.verify shortPublicKey s [] = .ok () ↔ s = signature := by
  have hprimes := hasPrimeFactors_shortRsaKey
  have hhigh : shortRsaKey.modulus < 2 ^ 2048 := by decide +kernel
  obtain ⟨hsound, hunique⟩ := rsa_signature_correct_and_unique toRsa_shortPrivateKey
    toRsa_shortPublicKey bounds_shortRsaKey.1 hhigh []
  obtain ⟨signature, hsign, hverify⟩ := hunique hprimes.prime_p hprimes.prime_q hprimes.ne
  exact ⟨toRsa_shortPrivateKey, toRsa_shortPublicKey, ⟨bounds_shortRsaKey.1, hhigh⟩,
    ⟨hprimes.prime_p, hprimes.prime_q, hprimes.ne⟩, signature, hsign,
    (hsound _ ((hsign _).2 rfl)).1, hverify⟩

/-- **Which moduli are refused**, whatever is drawn: those that do not take 256 bytes. A modulus of
2041 to 2047 bits takes as many bytes as one of 2048 bits, and passes. -/
theorem rsa_refused_iff_other_byte_size {key : PrivateKey} {peer : PublicKey} {k : Rsa.PrivateKey}
    {k' : Rsa.PublicKey} (hk : key.toRsa = .ok k) (hpeer : peer.toRsa = .ok k') (s data : Bytes) :
    (∀ x, (Rsa2048.sign key data).Yields x →
      (FailsWith .invalidKey x ↔ k.modulus < 2 ^ 2040 ∨ 2 ^ 2048 ≤ k.modulus)) ∧
    (∀ x, (sign .rsa2048Sha256 (.privateHalf key) data).Yields x →
      (FailsWith .invalidKey x ↔ k.modulus < 2 ^ 2040 ∨ 2 ^ 2048 ≤ k.modulus)) ∧
    (FailsWith .invalidKey (Rsa2048.verify peer s data) ↔
      k'.modulus < 2 ^ 2040 ∨ 2 ^ 2048 ≤ k'.modulus) ∧
    (k'.modulus < 2 ^ 2040 ∨ 2 ^ 2048 ≤ k'.modulus →
      verify .rsa2048Sha256 (.publicHalf peer) s data = false) := by
  have h0 : k.modulus ≠ 0 := (Rsa.PrivateKey.modulus_pos (Rsa2048.isValid_of_toRsa hk)).ne'
  have h0' := Rsa2048.modulus_ne_zero_of_toRsa hpeer
  rw [← Rsa2048.size_ne_iff h0, ← Rsa2048.size_ne_iff h0']
  refine ⟨fun _ => Rsa2048.sign_failsWith_iff hk, fun _ => Rsa2048.sign_failsWith_iff hk,
    Rsa2048.verify_failsWith_iff hpeer, fun hsize => ?_⟩
  exact verify_eq_false_of_check (Rsa2048.verify_of_size_ne hpeer hsize)

/-- The tiny key is refused throughout. -/
theorem rsa_refused_iff_other_byte_size_tiny :
    tinyPrivateKey.toRsa = .ok tinyRsaKey ∧ tinyPublicKey.toRsa = .ok tinyRsaKey.toPublicKey ∧
    tinyRsaKey.modulus < 2 ^ 2040 ∧
    (∀ x, (Rsa2048.sign tinyPrivateKey []).Yields x → FailsWith .invalidKey x) ∧
    FailsWith .invalidKey (Rsa2048.verify tinyPublicKey [] []) ∧
    verify .rsa2048Sha256 (.publicHalf tinyPublicKey) [] [] = false := by
  have hk : tinyPrivateKey.toRsa = .ok tinyRsaKey := by decide +kernel
  have hpeer : tinyPublicKey.toRsa = .ok tinyRsaKey.toPublicKey := by decide +kernel
  have hlow : tinyRsaKey.modulus < 2 ^ 2040 := by decide +kernel
  obtain ⟨hsign, -, hverify, hfalse⟩ := rsa_refused_iff_other_byte_size hk hpeer [] []
  exact ⟨hk, hpeer, hlow, fun x hx => (hsign x hx).2 (Or.inl hlow), hverify.2 (Or.inl hlow),
    hfalse (Or.inl hlow)⟩

/-- A modulus of 2047 bits is not refused: the key signs, whatever is drawn, and its signature is
accepted. -/
theorem rsa_modulus_of_2047_bits_accepted :
    shortPrivateKey.toRsa = .ok shortRsaKey ∧
    shortPublicKey.toRsa = .ok shortRsaKey.toPublicKey ∧
    shortRsaKey.modulus < 2 ^ 2047 ∧
    (∀ x, (Rsa2048.sign shortPrivateKey []).Yields x → ¬ FailsWith .invalidKey x) ∧
    ∃ s, (∀ x, (sign .rsa2048Sha256 (.privateHalf shortPrivateKey) []).Yields x ↔ x = .ok s) ∧
      Rsa2048.verify shortPublicKey s [] = .ok () ∧
      verify .rsa2048Sha256 (.publicHalf shortPublicKey) s [] = true := by
  have hprimes := hasPrimeFactors_shortRsaKey
  have hsize : shortRsaKey.size = 256 := by decide +kernel
  obtain ⟨s, hsign, hverify⟩ : ∃ s, (∀ x, (Rsa2048.sign shortPrivateKey []).Yields x ↔ x = .ok s) ∧
      ∀ s', Rsa2048.verify shortPublicKey s' [] = .ok () ↔ s' = s :=
    Rsa2048.exists_sign toRsa_shortPrivateKey toRsa_shortPublicKey hsize hprimes.prime_p
      hprimes.prime_q hprimes.ne
  have haccept := (hverify s).2 rfl
  exact ⟨toRsa_shortPrivateKey, toRsa_shortPublicKey, bounds_shortRsaKey.2,
    fun x hx h => (Rsa2048.sign_failsWith_iff toRsa_shortPrivateKey hx).1 h hsize, s, hsign,
    haccept, verify_iff_check.2 haccept⟩

end MessageCrypto
