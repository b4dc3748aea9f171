import MessageCrypto.Proofs.Agreement.Coordinates
import MessageCrypto.Proofs.P256.Signature

/-! # What is accepted as an ECDSA signature

Under a key that stands for a point, a byte string is accepted if it is the one encoding of a pair
of numbers below the order of the curve that satisfies the equation of the check. There is a second
signature for each that is accepted, with the opposite of `s`, and no other form of either of them.

* `Ecdsa.verify_eq_ok_iff`: acceptance over pairs of numbers.
* `ecdsa_accepts_exactly_valid_pairs`: the accepted byte strings, and what comes of any other. -/

namespace MessageCrypto

open P256 (n)

namespace P256

variable {r s : ℕ}

/-- The pair `r`, `s` is in range. -/
structure Signature.InRange (r s : ℕ) : Prop where
  one_le_r : 1 ≤ r
  r_lt : r < n
  one_le_s : 1 ≤ s
  s_lt : s < n

namespace Signature.InRange

theorem of_signature (sig : Signature) : InRange sig.r.val sig.s.val :=
  ⟨sig.r.pos, sig.r.lt, sig.s.pos, sig.s.lt⟩

theorem exists_signature (h : InRange r s) : ∃ sig : Signature, sig.r.val = r ∧ sig.s.val = s :=
  ⟨⟨⟨r, h.one_le_r, h.r_lt⟩, ⟨s, h.one_le_s, h.s_lt⟩⟩, rfl, rfl⟩

theorem opposite (h : InRange r s) : InRange r (n - s) :=
  ⟨h.one_le_r, h.r_lt, Nat.sub_pos_of_lt h.s_lt, Nat.sub_lt_self h.one_le_s h.s_lt.le⟩

/-- A pair in range has one encoding. -/
theorem existsUnique_isDer (h : InRange r s) : ∃! bytes, IsDer bytes r s := by
  obtain ⟨sig, rfl, rfl⟩ := h.exists_signature
  exact ⟨sig.toDer, isDer_iff.2 rfl, fun bytes hbytes => isDer_iff.1 hbytes⟩

end Signature.InRange

end P256

open P256.Signature (InRange IsDer)

namespace Ecdsa

variable {key : PublicKey} {q : P256.CurvePoint} {signature data : Bytes} {e : Error} {r s : ℕ}

theorem verify_eq (hq : key.toPoint = .ok q) : Ecdsa.verify key signature data =
    (P256.Signature.ofDer? signature).elim (.error .signatureRejected)
      fun sig => accept (P256.Ecdsa.verify q (Hash.sha256 data) sig) := by
  rw [Ecdsa.verify, hq]
  refine (pure_bind q _).trans ?_
  cases P256.Signature.ofDer? signature with
  | none => rfl
  | some sig => rfl

/-- There is one cause for all byte strings that are not accepted. -/
theorem verify_eq_error_of_ne_ok (hq : key.toPoint = .ok q)
    (h : Ecdsa.verify key signature data ≠ .ok ()) :
    Ecdsa.verify key signature data = .error .signatureRejected := by
  rw [verify_eq hq] at h ⊢
  cases hsig : P256.Signature.ofDer? signature with
  | none => rfl
  | some sig =>
    rw [hsig, Option.elim_some, Ne, accept_eq_ok_iff, Bool.not_eq_true] at h
    exact accept_eq_error_iff.2 ⟨h, rfl⟩

/-- The encoding of a pair in range is accepted if the pair is valid. -/
theorem verify_eq_ok_iff_isValid (hq : key.toPoint = .ok q) (hrange : InRange r s)
    (hder : IsDer signature r s) : Ecdsa.verify key signature data = .ok () ↔
      P256.Ecdsa.IsValid q (Bytes.toNat (Hash.sha256 data)) r s := by
  obtain ⟨sig, rfl, rfl⟩ := hrange.exists_signature
  rw [P256.Signature.isDer_iff.1 hder, verify_toDer hq, accept_eq_ok_iff, P256.Ecdsa.verify_iff]

/-- **A byte string is accepted** if it is the encoding of a valid pair in range. -/
theorem verify_eq_ok_iff (hq : key.toPoint = .ok q) : Ecdsa.verify key signature data = .ok () ↔
    ∃ r s, InRange r s ∧ IsDer signature r s ∧
      P256.Ecdsa.IsValid q (Bytes.toNat (Hash.sha256 data)) r s := by
  constructor
  · intro h
    cases hsig : P256.Signature.ofDer? signature with
    | none =>
      rw [verify_eq hq, hsig] at h
      cases h
    | some sig =>
      have hrange : InRange sig.r.val sig.s.val := .of_signature sig
      have hder : IsDer signature sig.r.val sig.s.val :=
        P256.Signature.isDer_iff.2 (P256.Signature.ofDer?_eq_some_iff.1 hsig)
      exact ⟨_, _, hrange, hder, (verify_eq_ok_iff_isValid hq hrange hder).1 h⟩
  · rintro ⟨r, s, hrange, hder, hvalid⟩
    exact (verify_eq_ok_iff_isValid hq hrange hder).2 hvalid

end Ecdsa

/-- **ECDSA accepts exactly the valid pairs, each in one form.** Under a key that stands for the
point `q`, the byte strings that are accepted are the encodings of pairs `r`, `s` from 1 up to the
order of the curve for which `(z / s) G + (r / s) q` is a finite point with `x` equal to `r` modulo
the order; any other is turned down for this. A pair has one encoding, and with the encoding of
`r`, `s` that of `r`, `n - s` is accepted. -/
theorem ecdsa_accepts_exactly_valid_pairs {key : PublicKey} {q : P256.CurvePoint}
    (hq : key.toPoint = .ok q) (data : Bytes) :
    (∀ signature, Ecdsa.verify key signature data = .ok () ↔
      ∃ r s, InRange r s ∧ IsDer signature r s ∧
        P256.Ecdsa.IsValid q (Bytes.toNat (Hash.sha256 data)) r s) ∧
    (∀ signature, Ecdsa.verify key signature data ≠ .ok () →
      Ecdsa.verify key signature data = .error .signatureRejected) ∧
    ∀ r s, InRange r s → (∃! signature, IsDer signature r s) ∧
      ∀ signature opposite, IsDer signature r s → IsDer opposite r (n - s) →
        Ecdsa.verify key signature data = .ok () → Ecdsa.verify key opposite data = .ok () := by
  refine ⟨fun signature => Ecdsa.verify_eq_ok_iff hq,
    fun signature h => Ecdsa.verify_eq_error_of_ne_ok hq h,
    fun r s hrange => ⟨hrange.existsUnique_isDer, fun signature opposite hder hopposite h => ?_⟩⟩
  have hvalid := (Ecdsa.verify_eq_ok_iff_isValid hq hrange hder).1 h
  exact (Ecdsa.verify_eq_ok_iff_isValid hq hrange.opposite hopposite).2
    (P256.Ecdsa.isValid_neg hrange.s_lt.le hvalid)

theorem ecdsa_accepts_exactly_valid_pairs_unit :
    unitPublicKey.toPoint = .ok .generator ∧
    Ecdsa.verify unitPublicKey [] [] = .error .signatureRejected ∧
    ∃ r s, InRange r s ∧ ∃ signature opposite, IsDer signature r s ∧ IsDer opposite r (n - s) ∧
      Ecdsa.verify unitPublicKey signature [] = .ok () ∧
      Ecdsa.verify unitPublicKey opposite [] = .ok () := by
  obtain ⟨haccept, hreject, hpair⟩ :=
    ecdsa_accepts_exactly_valid_pairs toPoint_unitPublicKey []
  have hempty : Ecdsa.verify unitPublicKey [] [] ≠ .ok () := by
    intro h
    obtain ⟨r, s, -, ⟨a, b, -, -, -, hbytes⟩, -⟩ := (haccept []).1 h
    cases hbytes
  refine ⟨toPoint_unitPublicKey, hreject [] hempty, ?_⟩
  obtain ⟨signature, hsign⟩ := exists_sign_unitPrivateKey
  have hok := Ecdsa.verify_of_sign toScalar_unitPrivateKey toPoint_unitPublicKey
    toPoint_generator_eq_unitScalar hsign
  obtain ⟨r, s, hrange, hder, -⟩ := (haccept signature).1 hok
  obtain ⟨opposite, hopposite, -⟩ := (hpair r (n - s) hrange.opposite).1
  exact ⟨r, s, hrange, signature, opposite, hder, hopposite, hok,
    (hpair r s hrange).2 signature opposite hder hopposite hok⟩

end MessageCrypto
