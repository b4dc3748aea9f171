import MessageCrypto.Proofs.Der.Integer
import MessageCrypto.Proofs.P256.Count
import MessageCrypto.Proofs.P256.Ecdsa

/-! # Which signatures are valid

The check of a signature is an equation in the group of the curve: the quotients of the digest and
of `r` by `s` are factors of the generator and of the public point, and the sum has to have `r` as
its `x` modulo the order. Every point has an order that divides `n`, so that quotients modulo `n`
are factors, and the opposite of `s` gives the opposite sum, which has the same `x`. Bytes stand for
a pair of numbers in one form only.

* `Signature.IsDer`, `Signature.isDer_iff`: the bytes of a pair of numbers.
* `Ecdsa.IsValid`, `Ecdsa.verify_iff`: the equation, and that it is what is checked.
* `Ecdsa.isValid_neg`: `n - s` may stand in place of `s`. -/

namespace MessageCrypto.P256

/-! ### Bytes -/

namespace Signature

/-- **The bytes of a SEQUENCE of two INTEGERs**, each in its shortest form, with lengths of one
octet and nothing behind them. -/
def IsDer (bytes : Bytes) (r s : ℕ) : Prop :=
  ∃ a b, Der.IsInteger a r ∧ Der.IsInteger b s ∧ 4 + a.length + b.length < 0x80 ∧
    bytes = 0x30 :: UInt8.ofNat (4 + a.length + b.length) ::
      (0x02 :: UInt8.ofNat a.length :: a ++ 0x02 :: UInt8.ofNat b.length :: b)

theorem toDer_eq (sig : Signature) : ∃ a b, a = Der.Element.unsignedContent sig.r.val ∧
    b = Der.Element.unsignedContent sig.s.val ∧ 4 + a.length + b.length < 0x80 ∧
    sig.toDer = 0x30 :: UInt8.ofNat (4 + a.length + b.length) ::
      (0x02 :: UInt8.ofNat a.length :: a ++ 0x02 :: UInt8.ofNat b.length :: b) := by
  have hr := length_unsignedContent_le sig.r
  have hs := length_unsignedContent_le sig.s
  generalize ha : Der.Element.unsignedContent sig.r.val = a at hr
  generalize hb : Der.Element.unsignedContent sig.s.val = b at hs
  have short {k : ℕ} (h : k < 0x80) : Der.lengthOctets k = [UInt8.ofNat k] := if_pos h
  have hlength : 4 + a.length + b.length < 0x80 := by omega
  have hcontent : Der.encode [.unsigned sig.r.val, .unsigned sig.s.val] =
      0x02 :: UInt8.ofNat a.length :: a ++ 0x02 :: UInt8.ofNat b.length :: b := by
    simp only [Der.encode, List.flatMap_cons, List.flatMap_nil, List.append_nil,
      Der.Element.encode, Der.Element.unsigned, Der.Tag.toOctet, ha, hb,
      short (show a.length < 0x80 by omega), short (show b.length < 0x80 by omega)]
    rfl
  refine ⟨a, b, rfl, rfl, hlength, ?_⟩
  have hwhole : (0x02 :: UInt8.ofNat a.length :: a ++ 0x02 :: UInt8.ofNat b.length :: b).length =
      4 + a.length + b.length := by
    simp only [List.length_append, List.length_cons]
    omega
  rw [toDer, Der.Element.encode, Der.Element.sequence, hcontent, hwhole, short hlength]
  rfl

/-- **A pair of numbers has one form.** -/
theorem isDer_iff {bytes : Bytes} {sig : Signature} :
    IsDer bytes sig.r.val sig.s.val ↔ bytes = sig.toDer := by
  obtain ⟨a, b, rfl, rfl, hlength, heq⟩ := sig.toDer_eq
  rw [heq]
  constructor
  · rintro ⟨a, b, ha, hb, -, rfl⟩
    rw [Der.isInteger_iff.1 ha, Der.isInteger_iff.1 hb]
  · rintro rfl
    exact ⟨_, _, Der.isInteger_iff.2 rfl, Der.isInteger_iff.2 rfl, hlength, rfl⟩

end Signature

/-! ### Factors modulo the order -/

theorem order_nsmul (g : curve.Point) : n • g = 0 := by
  rw [← natCard_point]
  exact card_nsmul_eq_zero'

theorem neg_val_nsmul (a : ZMod n) (g : curve.Point) : (-a).val • g = -(a.val • g) := by
  have hdvd : n ∣ (-a).val + a.val := by
    rw [← ZMod.natCast_eq_zero_iff, Nat.cast_add, ZMod.natCast_zmod_val, ZMod.natCast_zmod_val,
      neg_add_cancel]
  obtain ⟨k, hk⟩ := hdvd
  rw [eq_neg_iff_add_eq_zero, ← add_nsmul, hk, mul_nsmul, order_nsmul, nsmul_zero]

/-! ### The equation -/

namespace Ecdsa

variable {q : CurvePoint} {digest : Bytes} {sig : Signature} {z r s : ℕ}

/-- The point `(z / s) G + (r / s) Q`, with quotients modulo the order. -/
def checkPoint (q : CurvePoint) (z r s : ℕ) : curve.Point :=
  ((z : ZMod n) / s).val • CurvePoint.generator.toGroup + ((r : ZMod n) / s).val • q.toGroup

/-- **The pair `r`, `s` is valid** for the digest `z`: the point is finite, and its `x` is `r`
modulo the order. -/
def IsValid (q : CurvePoint) (z r s : ℕ) : Prop :=
  ∃ t : CurvePoint, checkPoint q z r s = t.toGroup ∧ t.x.val ≡ r [MOD n]

theorem val_div (k s : ℕ) : ((k : ZMod n) / s).val = k * inverseMod s % n := by
  rw [div_eq_mul_inv, ← cast_inverseMod, ← Nat.cast_mul, ZMod.val_natCast]

theorem ofGroup_checkPoint : Point.ofGroup (checkPoint q (Bytes.toNat digest) sig.r.val sig.s.val) =
    noncePoint q digest sig := by
  rw [checkPoint, val_div, val_div, Point.ofGroup_add, Point.ofGroup_nsmul_generator,
    Point.ofGroup_nsmul, CurvePoint.ofGroup_toGroup, noncePoint]

/-- **The check is the equation.** -/
theorem verify_iff :
    verify q digest sig = true ↔ IsValid q (Bytes.toNat digest) sig.r.val sig.s.val := by
  rw [verify, ← ofGroup_checkPoint, IsValid]
  generalize checkPoint q (Bytes.toNat digest) sig.r.val sig.s.val = g
  rcases CurvePoint.eq_zero_or_toGroup g with rfl | ⟨t, rfl⟩
  · have hinvalid : ¬ ∃ t : CurvePoint, 0 = t.toGroup ∧ t.x.val ≡ sig.r.val [MOD n] := by
      rintro ⟨t, ht, -⟩
      exact t.toGroup_ne_zero ht.symm
    simp [Point.ofGroup_zero, hinvalid]
  · have hunique : (∃ u : CurvePoint, t.toGroup = u.toGroup ∧ u.x.val ≡ sig.r.val [MOD n]) ↔
        t.x.val ≡ sig.r.val [MOD n] := by
      simp only [CurvePoint.toGroup_inj, exists_eq_left']
    rw [hunique, CurvePoint.ofGroup_toGroup, CurvePoint.toPoint, Point.xMod, Nat.ModEq,
      Nat.mod_eq_of_lt sig.r.lt]
    simp

/-- **The opposite of `s`** is as valid as `s`. -/
theorem isValid_neg (hs : s ≤ n) (h : IsValid q z r s) : IsValid q z r (n - s) := by
  obtain ⟨t, ht, hx⟩ := h
  have hneg (k : ℕ) : (k : ZMod n) / (n - s : ℕ) = -(k / s) := by
    rw [Nat.cast_sub hs, ZMod.natCast_self, zero_sub, div_neg]
  have hpoint : checkPoint q z r (n - s) = -t.toGroup := by
    rw [checkPoint, hneg, hneg, neg_val_nsmul, neg_val_nsmul, ← neg_add, ← ht, checkPoint]
  obtain ⟨u, hu⟩ := (CurvePoint.eq_zero_or_toGroup (-t.toGroup)).resolve_left
    (neg_ne_zero.2 t.toGroup_ne_zero)
  refine ⟨u, hpoint.trans hu.symm, ?_⟩
  rw [(CurvePoint.toGroup_eq_neg_iff.1 hu).x_eq]
  exact hx

end Ecdsa

end MessageCrypto.P256
