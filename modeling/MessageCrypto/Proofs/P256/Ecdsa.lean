import MessageCrypto.P256.Ecdsa
import MessageCrypto.Proofs.P256.Order

/-! # ECDSA: the point of the nonce

A signature exists unless one of its numbers is zero. Whatever the nonce, the point that is computed
when a signature is checked is that of the nonce it was made with.

* `Ecdsa.signWith?_eq_some_iff`, `Ecdsa.signWith?_eq_none_iff`: the numbers of a signature.
* `Ecdsa.noncePoint_eq`, `Ecdsa.verify_of_signWith?`: a signature is accepted under the public
  point. -/

namespace MessageCrypto.P256

/-! ### Numbers modulo the order -/

theorem cast_inverseMod (k : ℕ) : (inverseMod k : ZMod n) = (k : ZMod n)⁻¹ := by
  rw [inverseMod, cast_powerMod dvd_rfl, pow_sub_two (by decide)]

theorem Point.xMod_lt (q : Point) : q.xMod < n := by
  have hn : 0 < n := by decide
  cases q with
  | infinity => exact hn
  | affine x y => exact Nat.mod_lt _ hn

namespace Scalar

theorem cast_ne_zero (d : Scalar) : (d.val : ZMod n) ≠ 0 := by
  intro h
  have hdvd := (ZMod.natCast_eq_zero_iff d.val n).1 h
  have hle := Nat.le_of_dvd d.pos hdvd
  have hlt := d.lt
  omega

theorem ofNat?_eq_some_iff {k : ℕ} {d : Scalar} : ofNat? k = some d ↔ d.val = k := by
  refine ⟨fun h => (Signature.eq_val_of_ofNat? h).symm, ?_⟩
  rintro rfl
  exact Signature.ofNat?_val d

theorem ofNat?_eq_none_iff {k : ℕ} (hk : k < n) : ofNat? k = none ↔ k = 0 := by
  unfold ofNat?
  split_ifs with h
  · have hpos := h.1
    simp only [false_iff]
    omega
  · simp only [true_iff]
    by_contra h0
    exact h ⟨by omega, hk⟩

end Scalar

/-! ### The numbers of a signature -/

namespace Ecdsa

variable {k d : Scalar} {digest : Bytes} {sig : Signature}

/-- The number `r` for a nonce. -/
def firstNumber (k : Scalar) : ℕ := (Point.multiple k.val Point.generator).xMod

/-- The number `s` for a nonce. -/
def secondNumber (k d : Scalar) (digest : Bytes) : ℕ :=
  inverseMod k.val * (Bytes.toNat digest + firstNumber k * d.val) % n

/-- One of the numbers of a signature is zero for the nonce of the digest. -/
def HasZero (d : Scalar) (digest : Bytes) : Prop :=
  firstNumber (nonce d digest) = 0 ∨ secondNumber (nonce d digest) d digest = 0

theorem firstNumber_lt : firstNumber k < n := Point.xMod_lt _

theorem secondNumber_lt : secondNumber k d digest < n := Nat.mod_lt _ (by decide)

theorem signWith?_eq : signWith? k d digest =
    (Scalar.ofNat? (firstNumber k)).bind fun r =>
      (Scalar.ofNat? (secondNumber k d digest)).bind fun s => some ⟨r, s⟩ := rfl

theorem signWith?_eq_some_iff : signWith? k d digest = some sig ↔
    sig.r.val = firstNumber k ∧ sig.s.val = secondNumber k d digest := by
  simp only [signWith?_eq, Option.bind_eq_some_iff, Scalar.ofNat?_eq_some_iff, Option.some.injEq]
  constructor
  · rintro ⟨r, hr, s, hs, rfl⟩
    exact ⟨hr, hs⟩
  · rintro ⟨hr, hs⟩
    exact ⟨sig.r, hr, sig.s, hs, rfl⟩

theorem signWith?_eq_none_iff : signWith? k d digest = none ↔
    firstNumber k = 0 ∨ secondNumber k d digest = 0 := by
  rw [← Scalar.ofNat?_eq_none_iff firstNumber_lt, ← Scalar.ofNat?_eq_none_iff secondNumber_lt,
    signWith?_eq]
  cases Scalar.ofNat? (firstNumber k) with
  | none => simp
  | some r => cases Scalar.ofNat? (secondNumber k d digest) <;> simp

theorem sign?_eq_none_iff : sign? d digest = none ↔ HasZero d digest := signWith?_eq_none_iff

/-! ### The check -/

variable {q : CurvePoint}

/-- **The signer's nonce comes back**: `z / s + (r / s) d` is `k`, since `s` is `(z + r d) / k`. -/
theorem noncePoint_eq (hq : q.toPoint = Point.multiple d.val Point.generator)
    (hsig : signWith? k d digest = some sig) :
    noncePoint q digest sig = Point.multiple k.val Point.generator := by
  obtain ⟨hr, hs⟩ := signWith?_eq_some_iff.1 hsig
  have hs0 := sig.s.cast_ne_zero
  have hk0 := k.cast_ne_zero
  have hks : (k.val : ZMod n) * sig.s.val = Bytes.toNat digest + sig.r.val * d.val := by
    rw [hs, hr, secondNumber, ZMod.natCast_mod, Nat.cast_mul, cast_inverseMod, Nat.cast_add,
      Nat.cast_mul, mul_inv_cancel_left₀ hk0]
  rw [noncePoint, hq, Point.add_multiple_multiple, Point.multiple_generator_eq_iff,
    ← ZMod.natCast_eq_natCast_iff]
  simp only [Nat.cast_add, Nat.cast_mul, ZMod.natCast_mod, cast_inverseMod]
  calc (Bytes.toNat digest * (sig.s.val : ZMod n)⁻¹ +
        sig.r.val * (sig.s.val : ZMod n)⁻¹ * d.val : ZMod n)
      = (Bytes.toNat digest + sig.r.val * d.val) * (sig.s.val : ZMod n)⁻¹ := by ring
    _ = k.val * sig.s.val * (sig.s.val : ZMod n)⁻¹ := by rw [hks]
    _ = k.val := mul_inv_cancel_right₀ hs0 _

theorem verify_of_signWith? (hq : q.toPoint = Point.multiple d.val Point.generator)
    (hsig : signWith? k d digest = some sig) : verify q digest sig = true := by
  have hr : sig.r.val = (Point.multiple k.val Point.generator).xMod :=
    (signWith?_eq_some_iff.1 hsig).1
  have hpos := sig.r.pos
  have hfinite : Point.multiple k.val Point.generator ≠ .infinity := by
    intro h
    rw [h] at hr
    exact absurd hr (by simp only [Point.xMod]; omega)
  simp only [verify, noncePoint_eq hq hsig, hr, beq_self_eq_true, Bool.and_true, ne_eq,
    decide_eq_true_eq]
  exact hfinite

end Ecdsa

end MessageCrypto.P256
