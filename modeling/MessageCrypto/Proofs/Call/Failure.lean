import MessageCrypto.Proofs.Agreement.Coordinates
import MessageCrypto.Proofs.Call.Operation
import MessageCrypto.Proofs.Generation.Pair
import MessageCrypto.Proofs.Signing.Tag

/-! # Why calls fail

Each operation has few causes to fail for, and they are listed here by operation. A cause that is in
no list belongs to a branch that is never taken: of its conditions one is always met, such as the
bound on the length of a derived key or the limit on the length of an encoding.

* `Call.MayFail`: the causes, by operation.
* `Call.mayFail_of_fails`: there are no others.
* `Error.IsDead`, `Call.not_isDead_of_fails`: the causes that are in no list. -/

namespace MessageCrypto

/-! ### Single operations -/

section
variable {e : Error}

theorem HashFunction.digest_eq_error_iff {f : HashFunction} {message : Bytes} :
    f.digest message = .error e ↔ message = [] ∧ e = .emptyMessage := by
  unfold digest
  split_ifs with h <;> simp [h, eq_comm]

theorem Integer.decode_eq_error_iff {bytes : Bytes} :
    decode bytes = .error e ↔ size < bytes.length ∧ e = .integerTooLong bytes.length := by
  unfold decode
  split_ifs with h
  · simp [h]
  · simp [not_le.1 h, eq_comm]

theorem SignatureScheme.read_eq_error_iff {name : String} :
    read name = .error e ↔ ofName? name = none ∧ e = .unknownSignatureScheme name := by
  unfold read
  cases ofName? name <;> simp [eq_comm]

theorem EncryptionScheme.read_eq_error_iff {name : String} :
    read name = .error e ↔ ofName? name = Option.none ∧ e = .unknownEncryptionScheme name := by
  unfold read
  cases ofName? name <;> simp [eq_comm]

theorem SecretKey.derive_ne_error {master : SecretKey} {purpose : String} :
    master.derive purpose ≠ .error e := by
  rw [derive_eq]
  rintro ⟨⟩

theorem Hmac.verify_eq_error {key : SecretKey} {signature data : Bytes}
    (h : Hmac.verify key signature data = .error e) : e = .signatureRejected := by
  rw [Hmac.verify, bind_eq_error_iff, Hmac.tag_eq] at h
  rcases h with h | ⟨expected, -, h⟩
  · cases h
  · exact (accept_eq_error_iff.1 h).2

theorem Ecdsa.sign_eq_error {key : PrivateKey} {data : Bytes}
    (h : Ecdsa.sign key data = .error e) : key.toScalar = .error e ∨ e = .signingFailed := by
  rw [Ecdsa.sign, bind_eq_error_iff] at h
  rcases h with h | ⟨d, -, h⟩
  · exact .inl h
  · split at h
    · cases h
    · exact .inr (Except.error.inj h).symm

theorem Ecdsa.verify_eq_error {key : PublicKey} {signature data : Bytes}
    (h : Ecdsa.verify key signature data = .error e) :
    key.toPoint = .error e ∨ e = .signatureRejected := by
  rw [Ecdsa.verify, bind_eq_error_iff] at h
  rcases h with h | ⟨q, -, h⟩
  · exact .inl h
  · split at h
    · exact .inr (accept_eq_error_iff.1 h).2
    · exact .inr (Except.error.inj h).symm

theorem Rsa2048.checkSize_eq_error {k : Rsa.PublicKey} (h : checkSize k = .error e) :
    e = .modulusSize (8 * k.size) := by
  unfold checkSize at h
  split_ifs at h
  exact (Except.error.inj h).symm

theorem Rsa2048.signingKey_eq_error {key : PrivateKey} (h : signingKey key = .error e) :
    key.toRsa = .error e ∨ ∃ bits, e = .modulusSize bits := by
  rw [signingKey, bind_eq_error_iff] at h
  rcases h with h | ⟨k, -, h⟩
  · exact .inl h
  · rcases bind_eq_error_iff.1 h with h | ⟨-, -, h⟩
    · exact .inr ⟨_, checkSize_eq_error h⟩
    · cases h

theorem Rsa2048.sign_yields_error {key : PrivateKey} {data : Bytes}
    (h : (Rsa2048.sign key data).Yields (.error e)) :
    key.toRsa = .error e ∨ (∃ bits, e = .modulusSize bits) ∨ e = .signingFailed := by
  rw [Rsa2048.sign, Draw.yields_after_error_iff] at h
  rcases h with h | ⟨k, -, h⟩
  · exact (signingKey_eq_error h).imp_right .inl
  · obtain ⟨_ | s, -, h⟩ := Draw.yields_map.1 h
    · exact .inr (.inr (Except.error.inj h).symm)
    · cases h

theorem Rsa2048.verify_eq_error {key : PublicKey} {signature data : Bytes}
    (h : Rsa2048.verify key signature data = .error e) :
    key.toRsa = .error e ∨ (∃ bits, e = .modulusSize bits) ∨ e = .signatureRejected := by
  rw [Rsa2048.verify, bind_eq_error_iff] at h
  rcases h with h | ⟨k, -, h⟩
  · exact .inl h
  · rcases bind_eq_error_iff.1 h with h | ⟨-, -, h⟩
    · exact .inr (.inl ⟨_, checkSize_eq_error h⟩)
    · exact .inr (.inr (accept_eq_error_iff.1 h).2)

/-- The private key is read first, and there is nothing but the two keys to fail for. -/
theorem agree_eq_error_iff {own : PrivateKey} {peer : PublicKey} : agree own peer = .error e ↔
    own.toScalar = .error e ∨ (∃ d, own.toScalar = .ok d) ∧ peer.toPoint = .error e := by
  cases hd : own.toScalar with
  | error e' => simp [agree, hd, bind, Except.bind]
  | ok d =>
    cases hq : peer.toPoint with
    | error e' => simp [agree, hd, hq, bind, Except.bind]
    | ok q => simp [agree_eq hd hq]

theorem exportCoordinates_eq_error_iff {key : PublicKey} :
    exportCoordinates key = .error e ↔ key.toPoint = .error e := by
  simp only [exportCoordinates, bind_eq_error_iff, P256.CurvePoint.toPoint, reduceCtorEq, and_false,
    exists_false, or_false]

theorem importCoordinates_eq_error {x y : Bytes} (h : importCoordinates x y = .error e) :
    e = .pointOffCurve := by
  unfold importCoordinates at h
  split at h
  · next q _ =>
    obtain ⟨key, hkey⟩ := PublicKey.exists_ofPoint q
    rw [h] at hkey
    cases hkey
  · exact (Except.error.inj h).symm

theorem SecretKey.ofBytes_eq_error {bytes : Bytes} (h : ofBytes bytes = .error e) :
    e = .emptySecretKey := by
  unfold ofBytes at h
  split_ifs at h
  exact (Except.error.inj h).symm

theorem randomBytes_yields_error {length : ℕ} (h : (randomBytes length).Yields (.error e)) :
    length = 0 ∧ e = .emptyRandomRequest := by
  unfold randomBytes at h
  split_ifs at h with hlength
  · exact ⟨hlength, Except.error.inj (Draw.yields_pure.1 h)⟩
  · obtain ⟨bytes, -, hbytes⟩ := Draw.yields_map.1 h
    cases hbytes

/-- 32 random bytes always are a key. -/
theorem SecretKey.not_generate_yields_error : ¬ SecretKey.generate.Yields (.error e) := by
  intro h
  obtain ⟨bytes, hbytes, hkey⟩ := Draw.yields_map.1 h
  have hlength := Draw.yields_bytes.1 hbytes
  unfold ofBytes at hkey
  split_ifs at hkey with hempty
  rw [hempty] at hlength
  cases hlength

theorem KeyPair.not_generateEc_yields_error : ¬ generateEc.Yields (.error e) := by
  intro h
  obtain ⟨d, hd⟩ := yields_generateEc_iff.1 h
  obtain ⟨pair, hpair, -⟩ := exists_ofScalar d
  rw [hd] at hpair
  cases hpair

theorem KeyPair.generateRsa_yields_error (h : generateRsa.Yields (.error e)) :
    e = .noPrimeFound := by
  rcases yields_generateRsa_iff.1 h with ⟨-, hnone⟩ | ⟨k, hdraw, hk⟩
  · exact Except.error.inj hnone
  · obtain ⟨pair, hpair, -⟩ := exists_ofRsa (Rsa.PrivateKey.isGenerated_of_yields hdraw)
    rw [← hk] at hpair
    cases hpair

theorem EncodedKey.ofDer_eq_error {algorithm : KeyAlgorithm} {bytes : Bytes}
    (h : ofDer algorithm bytes = .error e) : e = .symmetricTag ∨ e = .emptyEncoding := by
  unfold ofDer at h
  split_ifs at h
  · exact .inl (Except.error.inj h).symm
  · exact .inr (Except.error.inj h).symm

end

theorem encrypt_eq_error {master : SecretKey} {scheme : EncryptionScheme}
    {vector plaintext : Bytes} {e : Error} (h : encrypt master scheme vector plaintext = .error e) :
    scheme = .none ∧ e = .unsupportedScheme .none ∨ e = .vectorLength vector.length := by
  cases scheme with
  | none => exact .inl ⟨rfl, (Except.error.inj h).symm⟩
  | aes256Cbc =>
    rw [encrypt_eq] at h
    exact .inr (Aes256Cbc.encrypt_eq_error master.length_encryptionKey h)

theorem decrypt_eq_error {master : SecretKey} {scheme : EncryptionScheme}
    {vector ciphertext : Bytes} {e : Error} (h : decrypt master scheme vector ciphertext = .error e) :
    scheme = .none ∧ e = .unsupportedScheme .none ∨ e = .vectorLength vector.length ∨
      e = .ciphertextLength ciphertext.length ∨ e = .invalidPadding := by
  cases scheme with
  | none => exact .inl ⟨rfl, (Except.error.inj h).symm⟩
  | aes256Cbc =>
    rw [decrypt_eq] at h
    exact .inr (Aes256Cbc.decrypt_eq_error master.length_encryptionKey h)

/-! ### The causes, by operation -/

/-- The causes for which a private key that fits does not sign: it is malformed, its modulus has
another size, or no signature comes out. -/
def IsSigningCause (e : Error) : Prop :=
  e = .malformedEcPrivateKey ∨ e = .malformedRsaPrivateKey ∨ (∃ bits, e = .modulusSize bits) ∨
    e = .signingFailed

theorem isSigningCause_of_sign {scheme : SignatureScheme} {key : PrivateKey} {data : Bytes}
    {e : Error} (hfits : key.algorithm = scheme.keyAlgorithm)
    (h : (sign scheme (.privateHalf key) data).Yields (.error e)) : IsSigningCause e := by
  cases scheme with
  | hmacSha256 => exact absurd hfits key.asymmetric
  | ecdsaP256Sha256 =>
    rcases Ecdsa.sign_eq_error (Draw.yields_pure.1 h).symm with hread | rfl
    · obtain ⟨hne, -⟩ | ⟨-, -, rfl⟩ := PrivateKey.toScalar_eq_error_iff.1 hread
      · exact absurd hfits hne
      · exact .inl rfl
    · exact .inr (.inr (.inr rfl))
  | rsa2048Sha256 =>
    rcases Rsa2048.sign_yields_error h with hread | hbits | rfl
    · obtain ⟨hne, -⟩ | ⟨-, -, rfl⟩ := PrivateKey.toRsa_eq_error_iff.1 hread
      · exact absurd hfits hne
      · exact .inr (.inl rfl)
    · exact .inr (.inr (.inl hbits))
    · exact .inr (.inr (.inr rfl))

/-- **Why signing fails** under a scheme: the key is public, or else its tag does not fit, or else
the key itself does not sign. -/
theorem sign_yields_error {scheme : SignatureScheme} {K : Key} {data : Bytes} {e : Error}
    (h : (sign scheme K data).Yields (.error e)) :
    K.kind = .publicHalf ∧ e = .signingWithPublicKey ∨
    K.kind ≠ .publicHalf ∧ K.algorithm ≠ scheme.keyAlgorithm ∧
      e = .keyAlgorithmMismatch scheme.keyAlgorithm K.algorithm ∨
    K.kind = .privateHalf ∧ K.algorithm = scheme.keyAlgorithm ∧ IsSigningCause e := by
  cases K with
  | publicHalf key =>
    rw [sign_publicHalf, Draw.yields_pure] at h
    exact .inl ⟨rfl, Except.error.inj h⟩
  | secret key =>
    by_cases hfits : (Key.secret key).algorithm = scheme.keyAlgorithm
    · cases scheme with
      | hmacSha256 =>
        rw [sign_secret, Draw.yields_pure] at h
        cases h
      | ecdsaP256Sha256 => cases hfits
      | rsa2048Sha256 => cases hfits
    · rw [sign_of_algorithm_ne Key.Kind.noConfusion hfits, Draw.yields_pure] at h
      exact .inr (.inl ⟨Key.Kind.noConfusion, hfits, Except.error.inj h⟩)
  | privateHalf key =>
    by_cases hfits : (Key.privateHalf key).algorithm = scheme.keyAlgorithm
    · exact .inr (.inr ⟨rfl, hfits, isSigningCause_of_sign hfits h⟩)
    · rw [sign_of_algorithm_ne Key.Kind.noConfusion hfits, Draw.yields_pure] at h
      exact .inr (.inl ⟨Key.Kind.noConfusion, hfits, Except.error.inj h⟩)

namespace Call

/-- **The causes for which a call can fail.** -/
def MayFail : Call → Error → Prop
  | digest _ message, e => message = [] ∧ e = .emptyMessage
  | readInteger bytes, e => Integer.size < bytes.length ∧ e = .integerTooLong bytes.length
  | readSignatureScheme name, e =>
    SignatureScheme.ofName? name = none ∧ e = .unknownSignatureScheme name
  | readEncryptionScheme name, e =>
    EncryptionScheme.ofName? name = none ∧ e = .unknownEncryptionScheme name
  | extract material _, e | expand material _ _, e => material = [] ∧ e = .emptyKeyMaterial
  | encryptWith key vector _, e =>
    e = .keyLength key.bytes.length ∨ e = .vectorLength vector.length
  | decryptWith key vector ciphertext, e =>
    (e = .keyLength key.bytes.length ∨ e = .vectorLength vector.length) ∨
      e = .ciphertextLength ciphertext.length ∨ e = .invalidPadding
  | encrypt _ scheme vector _, e =>
    scheme = .none ∧ e = .unsupportedScheme .none ∨ e = .vectorLength vector.length
  | decrypt _ scheme vector ciphertext, e =>
    scheme = .none ∧ e = .unsupportedScheme .none ∨ e = .vectorLength vector.length ∨
      e = .ciphertextLength ciphertext.length ∨ e = .invalidPadding
  | verifyHmac _ _ _, e => e = .signatureRejected
  | signEcdsa key _, e => key.toScalar = .error e ∨ e = .signingFailed
  | verifyEcdsa key _ _, e => key.toPoint = .error e ∨ e = .signatureRejected
  | signRsa key _, e =>
    key.toRsa = .error e ∨ (∃ bits, e = .modulusSize bits) ∨ e = .signingFailed
  | verifyRsa key _ _, e =>
    key.toRsa = .error e ∨ (∃ bits, e = .modulusSize bits) ∨ e = .signatureRejected
  | sign scheme K _, e =>
    K.kind = .publicHalf ∧ e = .signingWithPublicKey ∨
      K.kind ≠ .publicHalf ∧ K.algorithm ≠ scheme.keyAlgorithm ∧
        e = .keyAlgorithmMismatch scheme.keyAlgorithm K.algorithm ∨
      K.kind = .privateHalf ∧ K.algorithm = scheme.keyAlgorithm ∧ IsSigningCause e
  | agree own peer, e =>
    own.toScalar = .error e ∨ (∃ d, own.toScalar = .ok d) ∧ peer.toPoint = .error e
  | exportCoordinates key, e => key.toPoint = .error e
  | importCoordinates _ _, e => e = .pointOffCurve
  | importSecret _, e => e = .emptySecretKey
  | importPrivate _ _, e | importPublic _ _, e => e = .symmetricTag ∨ e = .emptyEncoding
  | randomBytes length, e => length = 0 ∧ e = .emptyRandomRequest
  | generateRsa, e => e = .noPrimeFound
  | derive _ _, _ | signHmac _ _, _ | verify _ _ _ _, _ | randomVector _, _ | generateSecret, _
  | generateEc, _ => False

/-- **There are no other causes.** -/
theorem mayFail_of_fails {c : Call} {e : Error} (h : c.Fails e) : c.MayFail e := by
  cases c with
  | randomBytes length => exact randomBytes_yields_error (yields_map_error_iff.1 h)
  | generateSecret => exact SecretKey.not_generate_yields_error (yields_map_error_iff.1 h)
  | generateEc => exact KeyPair.not_generateEc_yields_error (yields_map_error_iff.1 h)
  | generateRsa => exact KeyPair.generateRsa_yields_error (yields_map_error_iff.1 h)
  | randomVector scheme =>
    obtain ⟨vector, -, hvector⟩ := Draw.yields_map.1 h
    cases hvector
  | verify scheme key signature data =>
    cases Draw.yields_pure.1 h
  | digest f message => exact HashFunction.digest_eq_error_iff.1 (yields_pure_map_error_iff.1 h)
  | readInteger bytes => exact Integer.decode_eq_error_iff.1 (yields_pure_map_error_iff.1 h)
  | readSignatureScheme name =>
    exact SignatureScheme.read_eq_error_iff.1 (yields_pure_map_error_iff.1 h)
  | readEncryptionScheme name =>
    exact EncryptionScheme.read_eq_error_iff.1 (yields_pure_map_error_iff.1 h)
  | extract material salt =>
    exact Derivation.extract_eq_error_iff.1 (yields_pure_map_error_iff.1 h)
  | expand material salt context =>
    exact Derivation.derive_eq_error_iff.1 (yields_pure_map_error_iff.1 h)
  | derive master purpose => exact SecretKey.derive_ne_error (yields_pure_map_error_iff.1 h)
  | encryptWith key vector plaintext =>
    exact Aes256Cbc.setup_eq_error_or
      (Aes256Cbc.encrypt_eq_error_iff.1 (yields_pure_map_error_iff.1 h))
  | decryptWith key vector ciphertext =>
    exact (Aes256Cbc.decrypt_eq_error_or (yields_pure_map_error_iff.1 h)).imp_left
      Aes256Cbc.setup_eq_error_or
  | encrypt master scheme vector plaintext =>
    exact encrypt_eq_error (yields_pure_map_error_iff.1 h)
  | decrypt master scheme vector ciphertext =>
    exact decrypt_eq_error (yields_pure_map_error_iff.1 h)
  | signHmac key data =>
    have htag := yields_pure_map_error_iff.1 h
    rw [Hmac.tag_eq] at htag
    cases htag
  | verifyHmac key signature data => exact Hmac.verify_eq_error (yields_pure_map_error_iff.1 h)
  | signEcdsa key data => exact Ecdsa.sign_eq_error (yields_pure_map_error_iff.1 h)
  | verifyEcdsa key signature data => exact Ecdsa.verify_eq_error (yields_pure_map_error_iff.1 h)
  | signRsa key data => exact Rsa2048.sign_yields_error (yields_map_error_iff.1 h)
  | verifyRsa key signature data => exact Rsa2048.verify_eq_error (yields_pure_map_error_iff.1 h)
  | sign scheme key data => exact sign_yields_error (yields_map_error_iff.1 h)
  | agree own peer => exact agree_eq_error_iff.1 (yields_pure_map_error_iff.1 h)
  | exportCoordinates key =>
    exact exportCoordinates_eq_error_iff.1 (yields_pure_map_error_iff.1 h)
  | importCoordinates x y => exact importCoordinates_eq_error (yields_pure_map_error_iff.1 h)
  | importSecret bytes => exact SecretKey.ofBytes_eq_error (yields_pure_map_error_iff.1 h)
  | importPrivate algorithm bytes =>
    exact EncodedKey.ofDer_eq_error (map_eq_error_iff.1 (yields_pure_map_error_iff.1 h))
  | importPublic algorithm bytes =>
    exact EncodedKey.ofDer_eq_error (map_eq_error_iff.1 (yields_pure_map_error_iff.1 h))

end Call

/-! ### Branches that are never taken -/

/-- The causes that no call fails for. -/
def Error.IsDead : Error → Prop
  | expansionFailed | brokenBlocks | macKeyLength | identityPoint | unwritablePoint
  | unwritablePair _ | scalarWithoutPoint => True
  | _ => False

theorem EncodedKey.ReadFails.not_isDead {α : Type} {key : EncodedKey} {expected : KeyAlgorithm}
    {read : Option α} {malformed e : Error} (h : key.ReadFails expected read malformed e)
    (hmalformed : ¬ malformed.IsDead) : ¬ e.IsDead := by
  obtain ⟨-, rfl⟩ | ⟨-, -, rfl⟩ := h
  · exact id
  · exact hmalformed

theorem PrivateKey.not_isDead_of_toScalar {key : PrivateKey} {e : Error}
    (h : key.toScalar = .error e) : ¬ e.IsDead :=
  (toScalar_eq_error_iff.1 h).not_isDead id

theorem PublicKey.not_isDead_of_toPoint {key : PublicKey} {e : Error}
    (h : key.toPoint = .error e) : ¬ e.IsDead :=
  (toPoint_eq_error_iff.1 h).not_isDead id

theorem not_isDead_of_isSigningCause {e : Error} (h : IsSigningCause e) : ¬ e.IsDead := by
  obtain rfl | rfl | ⟨bits, rfl⟩ | rfl := h <;> exact id

namespace Call

theorem not_isDead_of_mayFail {c : Call} {e : Error} (h : c.MayFail e) : ¬ e.IsDead := by
  cases c with
  | digest | readInteger | readSignatureScheme | readEncryptionScheme | extract | expand
  | randomBytes =>
    obtain ⟨-, rfl⟩ := h
    exact id
  | verifyHmac | importCoordinates | importSecret | generateRsa =>
    obtain rfl := h
    exact id
  | encryptWith | importPrivate | importPublic =>
    obtain rfl | rfl := h <;> exact id
  | decryptWith => obtain (rfl | rfl) | rfl | rfl := h <;> exact id
  | encrypt => obtain ⟨-, rfl⟩ | rfl := h <;> exact id
  | decrypt => obtain ⟨-, rfl⟩ | rfl | rfl | rfl := h <;> exact id
  | signEcdsa =>
    obtain hread | rfl := h
    · exact PrivateKey.not_isDead_of_toScalar hread
    · exact id
  | verifyEcdsa =>
    obtain hread | rfl := h
    · exact PublicKey.not_isDead_of_toPoint hread
    · exact id
  | signRsa =>
    obtain hread | ⟨bits, rfl⟩ | rfl := h
    · exact (PrivateKey.toRsa_eq_error_iff.1 hread).not_isDead id
    · exact id
    · exact id
  | verifyRsa =>
    obtain hread | ⟨bits, rfl⟩ | rfl := h
    · exact (PublicKey.toRsa_eq_error_iff.1 hread).not_isDead id
    · exact id
    · exact id
  | sign =>
    obtain ⟨-, rfl⟩ | ⟨-, -, rfl⟩ | ⟨-, -, hcause⟩ := h
    · exact id
    · exact id
    · exact not_isDead_of_isSigningCause hcause
  | agree =>
    obtain hread | ⟨-, hread⟩ := h
    · exact PrivateKey.not_isDead_of_toScalar hread
    · exact PublicKey.not_isDead_of_toPoint hread
  | exportCoordinates => exact PublicKey.not_isDead_of_toPoint h
  | derive | signHmac | verify | randomVector | generateSecret | generateEc => exact h.elim

/-- **No call fails for a dead cause**, whatever its arguments and the random bytes are. -/
theorem not_isDead_of_fails {c : Call} {e : Error} (h : c.Fails e) : ¬ e.IsDead :=
  not_isDead_of_mayFail (mayFail_of_fails h)

end Call

end MessageCrypto
