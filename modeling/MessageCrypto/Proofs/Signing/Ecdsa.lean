import MessageCrypto.Proofs.Draw
import MessageCrypto.Proofs.P256.Ecdsa
import MessageCrypto.Proofs.Signing.Check

/-! # ECDSA signatures under keys

Under keys that can be read, signing and checking are those of the scalar and the point. A signature
by a scalar is accepted under every key that stands for its public point, however that point is
encoded.

* `Ecdsa.sign_eq_ok_iff`, `Ecdsa.sign_eq_error_iff`: the outcomes of signing.
* `Ecdsa.verify_of_sign`: what is signed is accepted. -/

namespace MessageCrypto

namespace Ecdsa

variable {key : PrivateKey} {peer : PublicKey} {d : P256.Scalar} {q : P256.CurvePoint}
  {data : Bytes}

theorem sign_eq (hd : key.toScalar = .ok d) : Ecdsa.sign key data =
    (P256.Ecdsa.sign? d (Hash.sha256 data)).elim (.error .signingFailed)
      fun sig => .ok sig.toDer := by
  rw [Ecdsa.sign, hd]
  refine (pure_bind d _).trans ?_
  cases P256.Ecdsa.sign? d (Hash.sha256 data) with
  | none => rfl
  | some sig => rfl

theorem sign_eq_ok_iff (hd : key.toScalar = .ok d) {signature : Bytes} :
    Ecdsa.sign key data = .ok signature ↔
      ∃ sig, P256.Ecdsa.sign? d (Hash.sha256 data) = some sig ∧ signature = sig.toDer := by
  rw [sign_eq hd]
  cases P256.Ecdsa.sign? d (Hash.sha256 data) with
  | none => simp
  | some sig => simp [eq_comm]

theorem sign_eq_error_iff (hd : key.toScalar = .ok d) {e : Error} :
    Ecdsa.sign key data = .error e ↔
      e = .signingFailed ∧ P256.Ecdsa.HasZero d (Hash.sha256 data) := by
  rw [← P256.Ecdsa.sign?_eq_none_iff, sign_eq hd]
  cases P256.Ecdsa.sign? d (Hash.sha256 data) with
  | none => simp [eq_comm]
  | some sig => simp

theorem verify_toDer (hq : peer.toPoint = .ok q) (sig : P256.Signature) :
    Ecdsa.verify peer sig.toDer data = accept (P256.Ecdsa.verify q (Hash.sha256 data) sig) := by
  rw [Ecdsa.verify, hq]
  refine (pure_bind q _).trans ?_
  rw [P256.Signature.ofDer?_toDer]

theorem verify_of_sign (hd : key.toScalar = .ok d) (hq : peer.toPoint = .ok q)
    (hdq : q.toPoint = P256.Point.multiple d.val P256.Point.generator) {signature : Bytes}
    (hsign : Ecdsa.sign key data = .ok signature) : Ecdsa.verify peer signature data = .ok () := by
  obtain ⟨sig, hsig, rfl⟩ := (sign_eq_ok_iff hd).1 hsign
  rw [verify_toDer hq, accept_eq_ok_iff]
  exact P256.Ecdsa.verify_of_signWith? hdq hsig

end Ecdsa

theorem sign_privateHalf (key : PrivateKey) (data : Bytes) :
    sign .ecdsaP256Sha256 (.privateHalf key) data = pure (Ecdsa.sign key data) := rfl

theorem verify_publicHalf_iff {key : PublicKey} {signature data : Bytes} :
    verify .ecdsaP256Sha256 (.publicHalf key) signature data = true ↔
      Ecdsa.verify key signature data = .ok () := verify_iff_check

/-- **What a scalar signs is accepted under its public point**, with the keys themselves and under
the scheme, and signing fails only if the nonce makes one of the two numbers of the signature
zero. -/
theorem ecdsa_round_trip {key : PrivateKey} {peer : PublicKey} {d : P256.Scalar}
    {q : P256.CurvePoint} (hd : key.toScalar = .ok d) (hq : peer.toPoint = .ok q)
    (hdq : q.toPoint = P256.Point.multiple d.val P256.Point.generator) (data : Bytes) :
    (∀ s, Ecdsa.sign key data = .ok s → Ecdsa.verify peer s data = .ok ()) ∧
    (∀ s, (sign .ecdsaP256Sha256 (.privateHalf key) data).Yields (.ok s) →
      verify .ecdsaP256Sha256 (.publicHalf peer) s data = true) ∧
    (∀ e, Ecdsa.sign key data = .error e ↔
      e = .signingFailed ∧ P256.Ecdsa.HasZero d (Hash.sha256 data)) ∧
    ∀ e, (sign .ecdsaP256Sha256 (.privateHalf key) data).Yields (.error e) ↔
      e = .signingFailed ∧ P256.Ecdsa.HasZero d (Hash.sha256 data) := by
  refine ⟨fun s hs => Ecdsa.verify_of_sign hd hq hdq hs, fun s hs => ?_,
    fun e => Ecdsa.sign_eq_error_iff hd, fun e => ?_⟩
  · rw [sign_privateHalf, Draw.yields_pure] at hs
    rw [verify_publicHalf_iff]
    exact Ecdsa.verify_of_sign hd hq hdq hs.symm
  · rw [sign_privateHalf, Draw.yields_pure, eq_comm]
    exact Ecdsa.sign_eq_error_iff hd

/-! ### The keys of the scalar 1 -/

/-- The scalar 1. -/
def unitScalar : P256.Scalar := ⟨1, by decide, by decide⟩

/-- A private key of the scalar 1. -/
def unitPrivateKey : PrivateKey :=
  ⟨⟨.ecdsa, unitScalar.toDer .generator, by decide, by decide⟩⟩

/-- The public key of the generator, with its point compressed. -/
def unitPublicKey : PublicKey :=
  ⟨⟨.ecdsa, Der.encodePublicKey P256.algorithm P256.CurvePoint.generator.compressed, by decide,
    by decide⟩⟩

/-- The nonce of the scalar 1 for the empty message. -/
def unitNonce : P256.Scalar :=
  ⟨84489716284413689554849703387663985008531653663818237104022128332049994709896, by decide,
    by decide⟩

theorem nonce_unitScalar : P256.nonce unitScalar (Hash.sha256 []) = unitNonce := by
  decide +kernel

theorem not_hasZero_unitScalar : ¬ P256.Ecdsa.HasZero unitScalar (Hash.sha256 []) := by
  rw [P256.Ecdsa.HasZero, nonce_unitScalar, P256.Ecdsa.secondNumber, P256.Ecdsa.firstNumber,
    P256.Point.generator, P256.Point.multiple_affine]
  decide +kernel

theorem ecdsa_round_trip_unit :
    unitPrivateKey.toScalar = .ok unitScalar ∧
    unitPublicKey.toPoint = .ok .generator ∧
    P256.CurvePoint.generator.toPoint = P256.Point.multiple unitScalar.val P256.Point.generator ∧
    ∃ s, Ecdsa.sign unitPrivateKey [] = .ok s ∧ Ecdsa.verify unitPublicKey s [] = .ok () := by
  have hd : unitPrivateKey.toScalar = .ok unitScalar := by decide +kernel
  have hq : unitPublicKey.toPoint = .ok .generator := by decide +kernel
  have hdq : P256.CurvePoint.generator.toPoint =
      P256.Point.multiple unitScalar.val P256.Point.generator := by decide +kernel
  refine ⟨hd, hq, hdq, ?_⟩
  obtain ⟨haccept, -, herror, -⟩ := ecdsa_round_trip hd hq hdq []
  cases hs : Ecdsa.sign unitPrivateKey [] with
  | ok s => exact ⟨s, rfl, haccept s hs⟩
  | error e => exact absurd ((herror e).1 hs).2 not_hasZero_unitScalar

end MessageCrypto
