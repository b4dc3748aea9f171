import MessageCrypto.Proofs.Signing.Check
import MessageCrypto.Proofs.Signing.Reading

/-! # Keys and schemes that do not fit

A scheme takes keys of one kind for signing and of one kind for checking, and all of them are tagged
for one algorithm. A key that does not fit is turned down for what it is, by its kind or its tag.
A public key never signs, whatever its tag is; any other key that does not fit has another tag than
the scheme.

* `Ecdsa.sign_of_algorithm_ne` and its like: the tag is compared before the bytes are looked into.
* `sign_publicHalf`, `sign_of_algorithm_ne`: signing under a scheme.
* `sign_privateHalf_congr`: keys from which the same is read sign alike.
* `fits_of_verify`: what a key is that has verified something. -/

namespace MessageCrypto

/-! ### Kinds -/

/-- The three kinds of keys. -/
inductive Key.Kind where
  | secret
  | privateHalf
  | publicHalf
  deriving DecidableEq

def Key.kind : Key → Key.Kind
  | secret _ => .secret
  | privateHalf _ => .privateHalf
  | publicHalf _ => .publicHalf

/-! ### With the key itself -/

section
variable {s data : Bytes}

theorem PrivateKey.toScalar_of_algorithm_ne {key : PrivateKey} (h : key.algorithm ≠ .ecdsa) :
    key.toScalar = .error (.keyAlgorithmMismatch .ecdsa key.algorithm) :=
  toScalar_eq_error_iff.2 (.inl ⟨h, rfl⟩)

theorem PublicKey.toPoint_of_algorithm_ne {key : PublicKey} (h : key.algorithm ≠ .ecdsa) :
    key.toPoint = .error (.keyAlgorithmMismatch .ecdsa key.algorithm) :=
  toPoint_eq_error_iff.2 (.inl ⟨h, rfl⟩)

theorem PrivateKey.toRsa_of_algorithm_ne {key : PrivateKey} (h : key.algorithm ≠ .rsa) :
    key.toRsa = .error (.keyAlgorithmMismatch .rsa key.algorithm) :=
  toRsa_eq_error_iff.2 (.inl ⟨h, rfl⟩)

theorem PublicKey.toRsa_of_algorithm_ne {key : PublicKey} (h : key.algorithm ≠ .rsa) :
    key.toRsa = .error (.keyAlgorithmMismatch .rsa key.algorithm) :=
  toRsa_eq_error_iff.2 (.inl ⟨h, rfl⟩)

theorem Ecdsa.sign_of_algorithm_ne {key : PrivateKey} (h : key.algorithm ≠ .ecdsa) :
    Ecdsa.sign key data = .error (.keyAlgorithmMismatch .ecdsa key.algorithm) := by
  rw [Ecdsa.sign, PrivateKey.toScalar_of_algorithm_ne h]
  rfl

theorem Ecdsa.verify_of_algorithm_ne {key : PublicKey} (h : key.algorithm ≠ .ecdsa) :
    Ecdsa.verify key s data = .error (.keyAlgorithmMismatch .ecdsa key.algorithm) := by
  rw [Ecdsa.verify, PublicKey.toPoint_of_algorithm_ne h]
  rfl

theorem Ecdsa.algorithm_of_verify {key : PublicKey} (h : Ecdsa.verify key s data = .ok ()) :
    key.algorithm = .ecdsa := by
  obtain ⟨q, hq, -⟩ := bind_eq_ok_iff.1 h
  exact (PublicKey.toPoint_eq_ok_iff.1 hq).1

theorem Rsa2048.sign_of_algorithm_ne {key : PrivateKey} (h : key.algorithm ≠ .rsa) :
    Rsa2048.sign key data = pure (.error (.keyAlgorithmMismatch .rsa key.algorithm)) := by
  rw [Rsa2048.sign, Rsa2048.signingKey, PrivateKey.toRsa_of_algorithm_ne h]
  rfl

theorem Rsa2048.sign_of_malformed {key : PrivateKey} (h : key.algorithm = .rsa)
    (hnone : Rsa.PrivateKey.ofDer? key.bytes = none) :
    Rsa2048.sign key data = pure (.error .malformedRsaPrivateKey) := by
  rw [Rsa2048.sign, Rsa2048.signingKey, PrivateKey.toRsa_eq_error_iff.2 (.inr ⟨h, hnone, rfl⟩)]
  rfl

theorem Rsa2048.verify_of_algorithm_ne {key : PublicKey} (h : key.algorithm ≠ .rsa) :
    Rsa2048.verify key s data = .error (.keyAlgorithmMismatch .rsa key.algorithm) := by
  rw [Rsa2048.verify, PublicKey.toRsa_of_algorithm_ne h]
  rfl

theorem Rsa2048.algorithm_of_verify {key : PublicKey} (h : Rsa2048.verify key s data = .ok ()) :
    key.algorithm = .rsa := by
  obtain ⟨k, hk, -⟩ := bind_eq_ok_iff.1 h
  exact (PublicKey.toRsa_eq_ok_iff.1 hk).1

end

/-! ### Under a scheme -/

section
variable {scheme : SignatureScheme} {data : Bytes}

/-- What a private key signs depends on its tag and on what is read from it. -/
theorem sign_privateHalf_congr {key key' : PrivateKey} (ha : key'.algorithm = key.algorithm)
    (hd : key'.toScalar = key.toScalar) (hk : key'.toRsa = key.toRsa) :
    sign scheme (.privateHalf key') data = sign scheme (.privateHalf key) data := by
  cases scheme with
  | hmacSha256 => simp only [sign, Key.algorithm, ha]
  | ecdsaP256Sha256 => simp only [sign, Ecdsa.sign, hd]
  | rsa2048Sha256 => simp only [sign, Rsa2048.sign, Rsa2048.signingKey, hk]

theorem sign_publicHalf (scheme : SignatureScheme) (key : PublicKey) (data : Bytes) :
    sign scheme (.publicHalf key) data = pure (.error .signingWithPublicKey) := by
  cases scheme <;> rfl

/-- A key that is not public is turned down for its tag. -/
theorem sign_of_algorithm_ne {K : Key} (hkind : K.kind ≠ .publicHalf)
    (h : K.algorithm ≠ scheme.keyAlgorithm) : sign scheme K data =
      pure (.error (.keyAlgorithmMismatch scheme.keyAlgorithm K.algorithm)) := by
  cases K with
  | publicHalf key => exact absurd rfl hkind
  | secret key =>
    cases scheme with
    | hmacSha256 => exact absurd rfl h
    | ecdsaP256Sha256 => rfl
    | rsa2048Sha256 => rfl
  | privateHalf key =>
    cases scheme with
    | hmacSha256 => rfl
    | ecdsaP256Sha256 =>
      have hne : key.algorithm ≠ .ecdsa := h
      change pure (Ecdsa.sign key data) = _
      rw [Ecdsa.sign_of_algorithm_ne hne]
      rfl
    | rsa2048Sha256 =>
      have hne : key.algorithm ≠ .rsa := h
      change Rsa2048.sign key data = _
      rw [Rsa2048.sign_of_algorithm_ne hne]
      rfl

/-- The kind of the keys that sign under a scheme. -/
def SignatureScheme.signingKind : SignatureScheme → Key.Kind
  | hmacSha256 => .secret
  | ecdsaP256Sha256 | rsa2048Sha256 => .privateHalf

/-- The kind of the keys that verify under a scheme. -/
def SignatureScheme.verifyingKind : SignatureScheme → Key.Kind
  | hmacSha256 => .secret
  | ecdsaP256Sha256 | rsa2048Sha256 => .publicHalf

/-- **A key that verifies something** has the tag and the kind of the scheme. -/
theorem fits_of_verify {K : Key} {s : Bytes} (h : verify scheme K s data = true) :
    K.algorithm = scheme.keyAlgorithm ∧ K.kind = scheme.verifyingKind := by
  rw [verify_iff_check] at h
  cases K with
  | privateHalf key => cases scheme <;> cases h
  | secret key =>
    cases scheme with
    | hmacSha256 => exact ⟨rfl, rfl⟩
    | ecdsaP256Sha256 => cases h
    | rsa2048Sha256 => cases h
  | publicHalf key =>
    cases scheme with
    | hmacSha256 => cases h
    | ecdsaP256Sha256 =>
      have hcheck : Ecdsa.verify key s data = .ok () := h
      exact ⟨Ecdsa.algorithm_of_verify hcheck, rfl⟩
    | rsa2048Sha256 =>
      have hcheck : Rsa2048.verify key s data = .ok () := h
      exact ⟨Rsa2048.algorithm_of_verify hcheck, rfl⟩

end

end MessageCrypto
