import Mathlib.Logic.Basic
import MessageCrypto.Signing

/-! # Keys that can be read

A key is read for one algorithm. Its tag is compared first, so that the bytes of a key with another
tag are never looked into.

* `bind_eq_ok_iff`, `bind_eq_error_iff`: steps that can fail, one after the other.
* `PrivateKey.toScalar_eq_ok_iff`, `PublicKey.toPoint_eq_ok_iff`, `PrivateKey.toRsa_eq_ok_iff`,
  `PublicKey.toRsa_eq_ok_iff`: what can be read from a key, and beside each of them why it cannot. -/

namespace MessageCrypto

section Steps
variable {ε α β : Type}

/-- Two steps succeed if both do. -/
theorem bind_eq_ok_iff {x : Except ε α} {f : α → Except ε β} {b : β} :
    (x >>= f) = .ok b ↔ ∃ a, x = .ok a ∧ f a = .ok b := by
  cases x with
  | error e =>
    constructor
    · intro h
      cases h
    · rintro ⟨a, ha, -⟩
      cases ha
  | ok a =>
    constructor
    · intro h
      exact ⟨a, rfl, h⟩
    · rintro ⟨a', ha', h⟩
      cases ha'
      exact h

/-- Two steps fail if the first does, or the second after it. -/
theorem bind_eq_error_iff {x : Except ε α} {f : α → Except ε β} {e : ε} :
    (x >>= f) = .error e ↔ x = .error e ∨ ∃ a, x = .ok a ∧ f a = .error e := by
  cases x with
  | error e' =>
    constructor
    · intro h
      exact .inl (congrArg Except.error (Except.error.inj h))
    · rintro (h | ⟨a, ha, -⟩)
      · exact congrArg Except.error (Except.error.inj h)
      · cases ha
  | ok a =>
    constructor
    · intro h
      exact .inr ⟨a, rfl, h⟩
    · rintro (h | ⟨a', ha', h⟩)
      · cases h
      · cases ha'
        exact h

theorem map_eq_error_iff {x : Except ε α} {f : α → β} {e : ε} :
    x.map f = .error e ↔ x = .error e := by
  cases x <;> simp [Except.map]

theorem map_eq_ok_iff {x : Except ε α} {f : α → β} {b : β} :
    x.map f = .ok b ↔ ∃ a, x = .ok a ∧ f a = b := by
  cases x <;> simp [Except.map]

theorem mapError_eq_ok_iff {ε' : Type} {x : Except ε α} {f : ε → ε'} {a : α} :
    x.mapError f = .ok a ↔ x = .ok a := by
  cases x with
  | error e =>
    change (.error (f e) : Except ε' α) = .ok a ↔ _
    simp only [reduceCtorEq]
  | ok b =>
    change (.ok b : Except ε' α) = .ok a ↔ _
    simp only [Except.ok.injEq]

theorem mapError_eq_error_iff {ε' : Type} {x : Except ε α} {f : ε → ε'} {e : ε'} :
    x.mapError f = .error e ↔ ∃ c, x = .error c ∧ e = f c := by
  cases x with
  | error c =>
    change (.error (f c) : Except ε' α) = .error e ↔ _
    simp only [Except.error.injEq, exists_eq_left', eq_comm]
  | ok b =>
    change (.ok b : Except ε' α) = .error e ↔ _
    simp only [reduceCtorEq, false_and, exists_false]

end Steps

namespace EncodedKey

variable {α : Type} {key : EncodedKey} {algorithm : KeyAlgorithm}

theorem expect_bind_of_eq (h : key.algorithm = algorithm) (x : Except Error α) :
    (key.expect algorithm >>= fun _ => x) = x := by
  rw [expect, if_pos h]
  rfl

theorem expect_bind_of_ne (h : key.algorithm ≠ algorithm) (x : Except Error α) :
    (key.expect algorithm >>= fun _ => x) =
      .error (.keyAlgorithmMismatch algorithm key.algorithm) := by
  rw [expect, if_neg h]
  rfl

theorem read_eq_ok_iff {read : Option α} {e : Error} {a : α} :
    (key.expect algorithm >>= fun _ => read.elim (.error e) .ok) = .ok a ↔
      key.algorithm = algorithm ∧ read = some a := by
  by_cases h : key.algorithm = algorithm
  · rw [expect_bind_of_eq h]
    cases read with
    | none => simp
    | some b => simp [h]
  · rw [expect_bind_of_ne h]
    simp [h]

/-- **Why a key cannot be read** for an algorithm: its tag is another one, or its tag is right and
its bytes are malformed. -/
def ReadFails (key : EncodedKey) (expected : KeyAlgorithm) (read : Option α) (malformed e : Error) :
    Prop :=
  key.algorithm ≠ expected ∧ e = .keyAlgorithmMismatch expected key.algorithm ∨
    key.algorithm = expected ∧ read = none ∧ e = malformed

theorem read_eq_error_iff {read : Option α} {malformed e : Error} :
    (key.expect algorithm >>= fun _ => read.elim (.error malformed) .ok) = .error e ↔
      key.ReadFails algorithm read malformed e := by
  unfold ReadFails
  by_cases h : key.algorithm = algorithm
  · rw [expect_bind_of_eq h]
    cases read with
    | none => simp [h, eq_comm]
    | some b => simp [h]
  · rw [expect_bind_of_ne h]
    simp [h, eq_comm]

end EncodedKey

open EncodedKey (read_eq_ok_iff read_eq_error_iff)

/-! ### The four readings -/

section
variable {key : PrivateKey} {e : Error}

theorem PrivateKey.toScalar_eq_ok_iff {d : P256.Scalar} :
    key.toScalar = .ok d ↔ key.algorithm = .ecdsa ∧ P256.Scalar.ofDer? key.bytes = some d :=
  read_eq_ok_iff

theorem PrivateKey.toScalar_eq_error_iff : key.toScalar = .error e ↔
    key.ReadFails .ecdsa (P256.Scalar.ofDer? key.bytes) .malformedEcPrivateKey e :=
  read_eq_error_iff

theorem PrivateKey.toRsa_eq_ok_iff {k : Rsa.PrivateKey} :
    key.toRsa = .ok k ↔ key.algorithm = .rsa ∧ Rsa.PrivateKey.ofDer? key.bytes = some k :=
  read_eq_ok_iff

theorem PrivateKey.toRsa_eq_error_iff : key.toRsa = .error e ↔
    key.ReadFails .rsa (Rsa.PrivateKey.ofDer? key.bytes) .malformedRsaPrivateKey e :=
  read_eq_error_iff

end

section
variable {key : PublicKey} {e : Error}

theorem PublicKey.toPoint_eq_ok_iff {q : P256.CurvePoint} :
    key.toPoint = .ok q ↔ key.algorithm = .ecdsa ∧ P256.CurvePoint.ofDer? key.bytes = some q :=
  read_eq_ok_iff

theorem PublicKey.toPoint_eq_error_iff : key.toPoint = .error e ↔
    key.ReadFails .ecdsa (P256.CurvePoint.ofDer? key.bytes) .malformedEcPublicKey e :=
  read_eq_error_iff

theorem PublicKey.toPoint_of_ofDer?_eq_none (h : key.algorithm = .ecdsa)
    (hnone : P256.CurvePoint.ofDer? key.bytes = none) :
    key.toPoint = .error .malformedEcPublicKey :=
  toPoint_eq_error_iff.2 (.inr ⟨h, hnone, rfl⟩)

theorem PublicKey.toRsa_eq_ok_iff {k : Rsa.PublicKey} :
    key.toRsa = .ok k ↔ key.algorithm = .rsa ∧ Rsa.PublicKey.ofDer? key.bytes = some k :=
  read_eq_ok_iff

theorem PublicKey.toRsa_eq_error_iff : key.toRsa = .error e ↔
    key.ReadFails .rsa (Rsa.PublicKey.ofDer? key.bytes) .malformedRsaPublicKey e :=
  read_eq_error_iff

end

end MessageCrypto
