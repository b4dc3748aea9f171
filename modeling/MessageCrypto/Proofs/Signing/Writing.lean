import Mathlib.Logic.Basic
import MessageCrypto.Proofs.P256.Encoding
import MessageCrypto.Signing

/-! # Keys from their encodings

A key is imported from any encoding but the empty one and under any tag but the symmetric one; its
encoding is kept as it is. What the library itself writes is far below the limit on lengths.

* `PrivateKey.ofDer_eq_ok_iff`, `PublicKey.ofDer_eq_ok_iff`: the key that is imported.
* `PrivateKey.write_eq`, `PublicKey.write_eq`: an encoding within the limit is written.
* `PublicKey.ofPoint_eq_ok_iff`, `PublicKey.exists_ofPoint`: every point has a key. -/

namespace MessageCrypto

/-! ### Import -/

theorem KeyAlgorithm.ecdsa_ne_aes256 : ecdsa ≠ aes256 := by decide

theorem KeyAlgorithm.rsa_ne_aes256 : rsa ≠ aes256 := by decide

variable {algorithm : KeyAlgorithm} {bytes : Bytes} {failure : Error}

/-- The conditions on the tag and the bytes are those that every key meets. -/
theorem EncodedKey.ofDer_eq_ok_iff {key : EncodedKey} :
    EncodedKey.ofDer algorithm bytes = .ok key ↔ key.algorithm = algorithm ∧ key.bytes = bytes := by
  constructor
  · intro h
    unfold EncodedKey.ofDer at h
    split_ifs at h
    rw [← Except.ok.inj h]
    exact ⟨rfl, rfl⟩
  · rintro ⟨rfl, rfl⟩
    rw [EncodedKey.ofDer, dif_neg key.asymmetric, dif_neg key.nonempty]

theorem PrivateKey.ofDer_eq_ok_iff {key : PrivateKey} :
    PrivateKey.ofDer algorithm bytes = .ok key ↔ key.algorithm = algorithm ∧ key.bytes = bytes := by
  rw [← EncodedKey.ofDer_eq_ok_iff, PrivateKey.ofDer]
  cases EncodedKey.ofDer algorithm bytes with
  | error e => simp [Except.map]
  | ok k =>
    cases key
    simp [Except.map]

theorem PublicKey.ofDer_eq_ok_iff {key : PublicKey} :
    PublicKey.ofDer algorithm bytes = .ok key ↔ key.algorithm = algorithm ∧ key.bytes = bytes := by
  rw [← EncodedKey.ofDer_eq_ok_iff, PublicKey.ofDer]
  cases EncodedKey.ofDer algorithm bytes with
  | error e => simp [Except.map]
  | ok k =>
    cases key
    simp [Except.map]

theorem PrivateKey.exists_of_ne (ha : algorithm ≠ .aes256) (hb : bytes ≠ []) :
    ∃ key : PrivateKey, key.algorithm = algorithm ∧ key.bytes = bytes :=
  ⟨⟨⟨algorithm, bytes, ha, hb⟩⟩, rfl, rfl⟩

theorem PublicKey.exists_of_ne (ha : algorithm ≠ .aes256) (hb : bytes ≠ []) :
    ∃ key : PublicKey, key.algorithm = algorithm ∧ key.bytes = bytes :=
  ⟨⟨⟨algorithm, bytes, ha, hb⟩⟩, rfl, rfl⟩

/-! ### Writing -/

theorem Der.Element.encode_ne_nil (e : Der.Element) : e.encode ≠ [] := List.cons_ne_nil _ _

section
variable (h : bytes.length ≤ Der.maxLength)
include h

theorem PrivateKey.write_eq :
    PrivateKey.write algorithm failure bytes = PrivateKey.ofDer algorithm bytes := by
  rw [PrivateKey.write, Der.written?, if_pos h, Option.elim_some]

theorem PublicKey.write_eq :
    PublicKey.write algorithm failure bytes = PublicKey.ofDer algorithm bytes := by
  rw [PublicKey.write, Der.written?, if_pos h, Option.elim_some]

end

theorem P256.CurvePoint.length_toDer (q : P256.CurvePoint) : q.toDer.length = 91 := by
  have hlength := q.length_uncompressed
  rw [toDer, P256.encodePublicKey_eq hlength.le, P256.container, List.length_append, hlength]
  rfl

theorem PublicKey.ofPoint_eq_ok_iff {q : P256.CurvePoint} {key : PublicKey} :
    PublicKey.ofPoint q = .ok key ↔ key.algorithm = .ecdsa ∧ key.bytes = q.toDer := by
  have hlength : q.toDer.length ≤ Der.maxLength := by
    rw [q.length_toDer]
    decide
  rw [PublicKey.ofPoint, PublicKey.write_eq hlength, PublicKey.ofDer_eq_ok_iff]

/-- **Every point has a key.** -/
theorem PublicKey.exists_ofPoint (q : P256.CurvePoint) : ∃ key, PublicKey.ofPoint q = .ok key := by
  obtain ⟨key, hkey⟩ := PublicKey.exists_of_ne KeyAlgorithm.ecdsa_ne_aes256
    (Der.Element.encode_ne_nil _ : q.toDer ≠ [])
  exact ⟨key, ofPoint_eq_ok_iff.2 hkey⟩

end MessageCrypto
