import MessageCrypto.Agreement
import MessageCrypto.Proofs.P256.Encoding
import MessageCrypto.Proofs.Signing.Dispatch
import MessageCrypto.Proofs.Signing.Ecdsa
import MessageCrypto.Proofs.Signing.Writing

/-! # Public keys on the curve

The coordinates of a public key are those of the point that its bytes stand for, and they can be
imported again. A byte string that stands for no point is turned down where the key is read: every
operation with it fails with the error of reading, whatever its other arguments are, so that no
point off the curve is ever computed with.

* `exportCoordinates_eq_ok_iff`, `exists_importCoordinates`: what is exported, and imported again.
* `invalid_curve_key_never_used`: which byte strings are keys, and what happens with any other. -/

namespace MessageCrypto

section
variable {key : PublicKey}

theorem exportCoordinates_eq_ok_iff {x y : Bytes} :
    exportCoordinates key = .ok (x, y) ↔
      ∃ q, key.toPoint = .ok q ∧ q.x.toBytes = x ∧ q.y.toBytes = y := by
  rw [exportCoordinates, bind_eq_ok_iff]
  simp only [P256.CurvePoint.toPoint, Except.ok.injEq, Prod.mk.injEq]

/-- The key that is imported from coordinates. -/
theorem importCoordinates_eq_ok_iff (q : P256.CurvePoint) :
    importCoordinates q.x.toBytes q.y.toBytes = .ok key ↔
      key.algorithm = .ecdsa ∧ key.bytes = q.toDer := by
  have hread : P256.CurvePoint.ofBytes? (0x04 :: (q.x.toBytes ++ q.y.toBytes)) = some q :=
    P256.CurvePoint.ofBytes?_eq_some_iff.2 (.inl rfl)
  rw [importCoordinates, hread, PublicKey.ofPoint_eq_ok_iff]

/-- The coordinates of a key are imported as a key with the same point. -/
theorem exists_importCoordinates (q : P256.CurvePoint) :
    ∃ key, importCoordinates q.x.toBytes q.y.toBytes = .ok key ∧ key.toPoint = .ok q := by
  have hne : q.toDer ≠ [] := List.cons_ne_nil _ _
  exact ⟨⟨⟨.ecdsa, q.toDer, KeyAlgorithm.ecdsa_ne_aes256, hne⟩⟩,
    (importCoordinates_eq_ok_iff q).2 ⟨rfl, rfl⟩,
    PublicKey.toPoint_eq_ok_iff.2 ⟨rfl, q.ofDer?_toDer⟩⟩

/-! ### Keys that stand for no point -/

section
variable {e : Error} (he : key.toPoint = .error e)
include he

theorem exportCoordinates_of_toPoint_eq_error : exportCoordinates key = .error e := by
  rw [exportCoordinates, he]
  rfl

theorem agree_of_toPoint_eq_error {own : PrivateKey} {d : P256.Scalar}
    (hd : own.toScalar = .ok d) : agree own key = .error e := by
  rw [agree, hd]
  refine (pure_bind d _).trans ?_
  rw [he]
  rfl

theorem Ecdsa.verify_of_toPoint_eq_error (s data : Bytes) : Ecdsa.verify key s data = .error e := by
  rw [Ecdsa.verify, he]
  rfl

end

/-- A key for ECDSA that cannot be read verifies nothing, under any scheme. -/
theorem verify_of_toPoint_eq_error {e : Error} (hkey : key.algorithm = .ecdsa)
    (he : key.toPoint = .error e) (scheme : SignatureScheme) (s data : Bytes) :
    verify scheme (.publicHalf key) s data = false := by
  cases scheme with
  | hmacSha256 => rfl
  | ecdsaP256Sha256 =>
    exact verify_eq_false_of_check (Ecdsa.verify_of_toPoint_eq_error he s data)
  | rsa2048Sha256 =>
    exact verify_eq_false_of_check (Rsa2048.verify_of_algorithm_ne (hkey ▸ by decide))

/-- **No point off the curve is used.** A key has coordinates exactly if it is the one container of
one of the three written forms of a point with them. With any other bytes all operations fail with
the error of reading the key. -/
theorem invalid_curve_key_never_used (hkey : key.algorithm = .ecdsa) :
    (∀ x y, exportCoordinates key = .ok (x, y) ↔ P256.IsPublicKey x y key.bytes) ∧
    ((¬ ∃ x y, P256.IsPublicKey x y key.bytes) → ∃ e : Error, e.kind = .invalidKey ∧
      key.toPoint = .error e ∧ exportCoordinates key = .error e ∧
      (∀ own d, PrivateKey.toScalar own = .ok d → agree own key = .error e) ∧
      (∀ s data, Ecdsa.verify key s data = .error e) ∧
      ∀ scheme s data, verify scheme (.publicHalf key) s data = false) := by
  constructor
  · intro x y
    rw [exportCoordinates_eq_ok_iff, P256.isPublicKey_iff]
    simp only [PublicKey.toPoint_eq_ok_iff, hkey, true_and]
  · intro hnone
    have he : key.toPoint = .error .malformedEcPublicKey := by
      refine PublicKey.toPoint_of_ofDer?_eq_none hkey (Option.eq_none_iff_forall_ne_some.2 ?_)
      intro q hq
      exact hnone ⟨_, _, P256.isPublicKey_iff.2 ⟨q, hq, rfl, rfl⟩⟩
    exact ⟨.malformedEcPublicKey, rfl, he, exportCoordinates_of_toPoint_eq_error he,
      fun _ _ hd => agree_of_toPoint_eq_error he hd, Ecdsa.verify_of_toPoint_eq_error he,
      verify_of_toPoint_eq_error hkey he⟩

end

/-! ### A key on the curve and one off it -/

theorem toScalar_unitPrivateKey : unitPrivateKey.toScalar = .ok unitScalar := by
  decide +kernel

theorem toPoint_unitPublicKey : unitPublicKey.toPoint = .ok .generator := by
  decide +kernel

/-- The generator is the public point of the scalar 1. -/
theorem toPoint_generator_eq_unitScalar : P256.CurvePoint.generator.toPoint =
    P256.Point.multiple unitScalar.val P256.Point.generator := by
  decide +kernel

theorem exists_sign_unitPrivateKey : ∃ s, Ecdsa.sign unitPrivateKey [] = .ok s := by
  cases hs : Ecdsa.sign unitPrivateKey [] with
  | ok s => exact ⟨s, rfl⟩
  | error e =>
    exact absurd ((Ecdsa.sign_eq_error_iff toScalar_unitPrivateKey).1 hs).2 not_hasZero_unitScalar

/-- A key with a point off the curve: both coordinates are the `x` of the generator. -/
def offCurveKey : PublicKey :=
  ⟨⟨.ecdsa, P256.container (0x04 :: (P256.CurvePoint.generator.x.toBytes ++
    P256.CurvePoint.generator.x.toBytes)), KeyAlgorithm.ecdsa_ne_aes256, List.cons_ne_nil _ _⟩⟩

/-- The compressed generator has its coordinates, and nothing is done with the key off the
curve. -/
theorem invalid_curve_key_never_used_generator :
    unitPublicKey.algorithm = .ecdsa ∧ offCurveKey.algorithm = .ecdsa ∧
    P256.IsPublicKey P256.CurvePoint.generator.x.toBytes P256.CurvePoint.generator.y.toBytes
      unitPublicKey.bytes ∧
    exportCoordinates unitPublicKey =
      .ok (P256.CurvePoint.generator.x.toBytes, P256.CurvePoint.generator.y.toBytes) ∧
    (¬ ∃ x y, P256.IsPublicKey x y offCurveKey.bytes) ∧
    ∃ e : Error, e.kind = .invalidKey ∧ exportCoordinates offCurveKey = .error e ∧
      agree unitPrivateKey offCurveKey = .error e := by
  have hunit := (PublicKey.toPoint_eq_ok_iff.1 toPoint_unitPublicKey).2
  have hoff : P256.CurvePoint.ofDer? offCurveKey.bytes = none := by decide +kernel
  have hkey := P256.isPublicKey_iff.2 ⟨_, hunit, rfl, rfl⟩
  have hno : ¬ ∃ x y, P256.IsPublicKey x y offCurveKey.bytes := by
    rintro ⟨x, y, h⟩
    obtain ⟨q, hq, -⟩ := P256.isPublicKey_iff.1 h
    rw [hoff] at hq
    cases hq
  obtain ⟨e, he, -, hexport, hagree, -⟩ := (invalid_curve_key_never_used rfl).2 hno
  exact ⟨rfl, rfl, hkey, ((invalid_curve_key_never_used rfl).1 _ _).2 hkey, hno, e, he, hexport,
    hagree _ _ toScalar_unitPrivateKey⟩

end MessageCrypto
