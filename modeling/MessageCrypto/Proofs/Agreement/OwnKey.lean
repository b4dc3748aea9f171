import MessageCrypto.Proofs.Agreement.Secret
import MessageCrypto.Proofs.P256.PrivateKey

/-! # Private keys on P-256 in use

A private key is read before anything is done with it, and is refused if its parts belong to no
scalar. Once it is read only the scalar counts: how the secret was padded, and whether its public
point stood beside it, makes no difference to what is signed or agreed on.

* `PrivateKey.IsRefused`, `PrivateKey.isRefused_of_ofDer?_eq_none`: keys that nothing is done with.
* `PrivateKey.SameUse`, `PrivateKey.SameUse.of_toScalar_eq`: keys that cannot be told apart in use.
* `ec_private_keys_validated`: which keys are read, which are refused, and which do the same. -/

namespace MessageCrypto

namespace PrivateKey

variable {key key' : PrivateKey} {d : P256.Scalar}

/-! ### Refused keys -/

/-- **The key is refused** as an invalid key, whatever is to be signed and whoever the peer is. -/
structure IsRefused (key : PrivateKey) : Prop where
  signs : ∀ data, FailsWith .invalidKey (Ecdsa.sign key data)
  agrees : ∀ peer, FailsWith .invalidKey (agree key peer)

theorem isRefused_of_toScalar_eq_error {e : Error} (h : key.toScalar = .error e)
    (he : e.kind = .invalidKey) : key.IsRefused where
  signs data := by
    refine ⟨e, ?_, he⟩
    rw [Ecdsa.sign, h]
    rfl
  agrees peer := by
    refine ⟨e, ?_, he⟩
    rw [agree, h]
    rfl

theorem isRefused_of_ofDer?_eq_none (hkey : key.algorithm = .ecdsa)
    (h : P256.Scalar.ofDer? key.bytes = none) : key.IsRefused :=
  isRefused_of_toScalar_eq_error (toScalar_eq_error_iff.2 (.inr ⟨hkey, h, rfl⟩)) rfl

/-! ### Keys of one scalar -/

/-- **The second key does what the first does**: it signs alike, with the key itself and under every
scheme, and leads to the same agreed keys. Where one of them fails so does the other, for the same
cause. -/
structure SameUse (key key' : PrivateKey) : Prop where
  signs : ∀ data, Ecdsa.sign key' data = Ecdsa.sign key data
  signs_under : ∀ scheme data,
    sign scheme (.privateHalf key') data = sign scheme (.privateHalf key) data
  agrees : ∀ peer, agree key' peer = agree key peer

/-- A key that is read as a scalar is not read as anything else. -/
theorem toRsa_of_toScalar (hd : key.toScalar = .ok d) :
    key.toRsa = .error (.keyAlgorithmMismatch .rsa .ecdsa) := by
  have ha := (toScalar_eq_ok_iff.1 hd).1
  rw [toRsa_of_algorithm_ne (ha ▸ by decide), ha]

theorem SameUse.of_toScalar_eq (hd : key.toScalar = .ok d) (hd' : key'.toScalar = .ok d) :
    SameUse key key' where
  signs data := by simp only [Ecdsa.sign, hd, hd']
  signs_under scheme data := by
    have ha := (toScalar_eq_ok_iff.1 hd).1
    have ha' := (toScalar_eq_ok_iff.1 hd').1
    exact sign_privateHalf_congr (ha'.trans ha.symm) (hd'.trans hd.symm)
      ((toRsa_of_toScalar hd').trans (toRsa_of_toScalar hd).symm)
  agrees peer := by simp only [agree, hd, hd']

theorem toScalar_eq_ok_iff_isPrivateKey (hkey : key.algorithm = .ecdsa) : key.toScalar = .ok d ↔
    ∃ secret point, P256.IsPrivateKey secret point key.bytes ∧ d.IsHeldBy secret point := by
  rw [toScalar_eq_ok_iff, P256.Scalar.ofDer?_eq_some_iff]
  exact and_iff_right hkey

end PrivateKey

/-! ### Main statement -/

/-- **Private keys are checked, and their encoding does not matter.** A key for ECDSA is read as a
scalar exactly if its bytes are the strict encoding of a secret and a point, or no point, that
belong to the scalar: the secret has 24 to 32 bytes and stands for it, and the point is its public
point. All other keys are refused, among them those with a secret that is zero or not below the
order, or with the point of another scalar. Keys of one scalar do the same. -/
theorem ec_private_keys_validated {key : PrivateKey} (hkey : key.algorithm = .ecdsa) :
    (∀ d, key.toScalar = .ok d ↔
      ∃ secret point, P256.IsPrivateKey secret point key.bytes ∧ d.IsHeldBy secret point) ∧
    ((∀ d, key.toScalar ≠ .ok d) → key.IsRefused) ∧
    (∀ secret point, P256.IsPrivateKey secret point key.bytes →
      (Bytes.toNat secret = 0 ∨ P256.n ≤ Bytes.toNat secret ∨ ∃ bytes ∈ point,
        ∀ d : P256.Scalar, d.val = Bytes.toNat secret → ¬ d.IsPublicPoint bytes) →
      key.IsRefused) ∧
    ∀ key' d, key.toScalar = .ok d → PrivateKey.toScalar key' = .ok d → key.SameUse key' := by
  refine ⟨fun d => PrivateKey.toScalar_eq_ok_iff_isPrivateKey hkey, fun h => ?_,
    fun secret point hformat hother => ?_, fun key' d hd hd' => .of_toScalar_eq hd hd'⟩
  · refine PrivateKey.isRefused_of_ofDer?_eq_none hkey (Option.eq_none_iff_forall_ne_some.2 ?_)
    exact fun d hd => h d (PrivateKey.toScalar_eq_ok_iff.2 ⟨hkey, hd⟩)
  · exact PrivateKey.isRefused_of_ofDer?_eq_none hkey
      (P256.Scalar.ofDer?_eq_none_of_isPrivateKey hformat
        fun d => P256.Scalar.not_isHeldBy hother)

/-! ### Other encodings of the scalar 1, and keys that are refused -/

/-- The inner format of a secret and a point. -/
def innerKey (secret : Bytes) (point : Option Bytes) : Bytes :=
  (Der.Element.sequence
    (.unsigned 1 :: .octetString secret :: P256.pointElements point)).encode

/-- A private key that holds a secret and a point, whatever they are. -/
def heldKey (secret : Bytes) (point : Option Bytes) : PrivateKey :=
  ⟨⟨.ecdsa, Der.encodePrivateKey P256.algorithm (innerKey secret point),
    KeyAlgorithm.ecdsa_ne_aes256, Der.Element.encode_ne_nil _⟩⟩

theorem isPrivateKey_heldKey {secret : Bytes} {point : Option Bytes}
    (houter : Der.decodePrivateKey? P256.algorithm (heldKey secret point).bytes =
      some (innerKey secret point))
    (hinner : Der.sequence? (innerKey secret point) =
      some (.unsigned 1 :: .octetString secret :: P256.pointElements point)) :
    P256.IsPrivateKey secret point (heldKey secret point).bytes :=
  ⟨_, Der.decodePrivateKey?_eq_some_iff.1 houter, _, .inl rfl, Der.isSequence_iff.2 hinner⟩

/-- A secret of 24 bytes without a point signs as one of 32 bytes with its point does. The order of
the curve is refused as a secret, and so is the secret 1 with twice the generator. -/
theorem ec_private_keys_validated_unit :
    unitPrivateKey.toScalar = .ok unitScalar ∧
    (heldKey (Bytes.ofNat 24 1) none).toScalar = .ok unitScalar ∧
    unitPrivateKey.SameUse (heldKey (Bytes.ofNat 24 1) none) ∧
    P256.IsPrivateKey (Bytes.ofNat 32 P256.n) none (heldKey (Bytes.ofNat 32 P256.n) none).bytes ∧
    (heldKey (Bytes.ofNat 32 P256.n) none).IsRefused ∧
    P256.IsPrivateKey (Bytes.ofNat 32 1) (some doublePoint.uncompressed)
      (heldKey (Bytes.ofNat 32 1) (some doublePoint.uncompressed)).bytes ∧
    (heldKey (Bytes.ofNat 32 1) (some doublePoint.uncompressed)).IsRefused := by
  have hshort : (heldKey (Bytes.ofNat 24 1) none).toScalar = .ok unitScalar := by decide +kernel
  have horder : P256.IsPrivateKey (Bytes.ofNat 32 P256.n) none
      (heldKey (Bytes.ofNat 32 P256.n) none).bytes :=
    isPrivateKey_heldKey (by decide +kernel) (by decide +kernel)
  have hdouble : P256.IsPrivateKey (Bytes.ofNat 32 1) (some doublePoint.uncompressed)
      (heldKey (Bytes.ofNat 32 1) (some doublePoint.uncompressed)).bytes :=
    isPrivateKey_heldKey (by decide +kernel) (by decide +kernel)
  have hother (d : P256.Scalar) (hd : d.val = Bytes.toNat (Bytes.ofNat 32 1)) :
      ¬ d.IsPublicPoint doublePoint.uncompressed := by
    rintro ⟨q, hq, hbytes⟩
    have hone : Bytes.toNat (Bytes.ofNat 32 1) = unitScalar.val := by decide +kernel
    rw [hd, hone, ← toPoint_generator_eq_unitScalar] at hq
    rw [P256.CurvePoint.toPoint_injective hq] at hbytes
    exact absurd hbytes (by decide +kernel)
  obtain ⟨-, -, -, hsame⟩ := ec_private_keys_validated (rfl : unitPrivateKey.algorithm = .ecdsa)
  obtain ⟨-, -, horderRefused, -⟩ :=
    ec_private_keys_validated (rfl : (heldKey (Bytes.ofNat 32 P256.n) none).algorithm = .ecdsa)
  obtain ⟨-, -, hdoubleRefused, -⟩ := ec_private_keys_validated
    (rfl : (heldKey (Bytes.ofNat 32 1) (some doublePoint.uncompressed)).algorithm = .ecdsa)
  exact ⟨toScalar_unitPrivateKey, hshort, hsame _ _ toScalar_unitPrivateKey hshort, horder,
    horderRefused _ _ horder (.inr (.inl (by decide +kernel))), hdouble,
    hdoubleRefused _ _ hdouble (.inr (.inr ⟨_, rfl, hother⟩))⟩

end MessageCrypto
