import Mathlib.Logic.Basic
import MessageCrypto.Signing

/-! # Checks that accept

A check either accepts or has a cause for which it does not; verifying forgets the cause. -/

namespace MessageCrypto

/-- An operation fails for a cause of the kind. -/
def FailsWith {α : Type} (kind : ErrorKind) (x : Except Error α) : Prop :=
  ∃ e, x = .error e ∧ e.kind = kind

theorem failsWith_error_iff {α : Type} {kind : ErrorKind} {e : Error} :
    FailsWith kind (.error e : Except Error α) ↔ e.kind = kind := by
  simp [FailsWith]

theorem accept_eq_ok_iff {b : Bool} : accept b = .ok () ↔ b = true := by
  cases b <;> simp [accept]

theorem accept_eq_error_iff {b : Bool} {e : Error} :
    accept b = .error e ↔ b = false ∧ e = .signatureRejected := by
  cases b <;> simp [accept, eq_comm]

theorem verify_iff_check {scheme : SignatureScheme} {key : Key} {signature data : Bytes} :
    verify scheme key signature data = true ↔ check scheme key signature data = .ok () := by
  unfold verify
  cases check scheme key signature data <;> simp

theorem verify_eq_false_of_check {scheme : SignatureScheme} {key : Key} {signature data : Bytes}
    {e : Error} (h : check scheme key signature data = .error e) :
    verify scheme key signature data = false := by
  rw [verify, h]

theorem Hmac.verify_eq_ok_iff {key : SecretKey} {signature data : Bytes} :
    Hmac.verify key signature data = .ok () ↔ signature = Hmac.sign key data := by
  rw [Hmac.verify, Hmac.tag_eq]
  exact accept_eq_ok_iff.trans decide_eq_true_iff

end MessageCrypto
