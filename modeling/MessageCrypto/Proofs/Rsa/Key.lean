import MessageCrypto.Generation
import MessageCrypto.Proofs.Der.KeyInfo
import MessageCrypto.Proofs.Rsa.Root

/-! # RSA keys are read as they are written

What is read from a byte string is valid, and a valid key is read back from what is written, within
the limits on the modulus and on lengths.

* `PublicKey.isValid_of_ofDer?`, `PrivateKey.isValid_of_ofDer?`: only valid keys are read.
* `PublicKey.ofDer?_toDer`, `PrivateKey.ofDer?_encode`: keys are read back.
* `PrivateKey.isValid_ofPrimes`: a key made from two odd numbers is valid, if the exponent is coprime
  to the predecessors of both. -/

namespace MessageCrypto.Rsa

open Der (Element)

theorem isValid_of_mem_algorithm : ∀ e ∈ algorithm, e.IsValid := by
  simp only [algorithm, List.forall_mem_cons]
  exact ⟨⟨rfl, by decide⟩, ⟨rfl, by decide⟩, by simp⟩

theorem length_encode_algorithm_le : (Der.encode algorithm).length ≤ 1045 := by
  have hlength : (Der.encode algorithm).length = 13 := rfl
  omega

/-! ### Public keys -/

namespace PublicKey

theorem isValid_of_ofDer? {bytes : Bytes} {k : PublicKey} (h : ofDer? bytes = some k) :
    k.isValid = true := by
  obtain ⟨inner, -, h⟩ := Option.bind_eq_some_iff.1 h
  simp only [ofInner?, Option.bind_eq_bind, Option.bind_eq_some_iff] at h
  obtain ⟨es, -, ns, -, h⟩ := h
  split at h
  · obtain ⟨⟨hvalid, -⟩, heq⟩ := Option.ite_none_right_eq_some.1 h
    rw [← Option.some.inj heq]
    exact hvalid
  · cases h

variable {k : PublicKey} {w : ℕ} (hvalid : k.isValid = true) (hlt : k.modulus < 256 ^ w)
include hvalid hlt

/-- The exponent is below the modulus, and has a place where that has one. -/
theorem lt_of_mem_numbers : ∀ m ∈ [k.modulus, k.exponent], m < 256 ^ w := by
  have he := (isValid_iff.1 hvalid).2.1.trans hlt
  simp only [List.forall_mem_cons]
  exact ⟨hlt, he, by simp⟩

variable (hw : w ≤ 512)
include hw

theorem ofInner?_encode : ofInner? k.toElement.encode = some k := by
  have hmax : 2 * (w + 7) ≤ Der.maxLength := by
    unfold Der.maxLength
    omega
  have h0 : k.modulus ≠ 0 := by
    have hodd := (isValid_iff.1 hvalid).1
    omega
  have hlog : k.modulus.log2 < 4096 := by
    have hpow : 256 ^ w = 2 ^ (8 * w) := (pow_mul 2 8 w).symm
    have h := (Nat.log2_lt h0).2 (hpow ▸ hlt)
    omega
  have hseq := Der.sequence?_encode_unsigned (lt_of_mem_numbers hvalid hlt) rfl (by omega) hmax
  have hns := Element.mapM_unsigned?_eq_some_iff.2
    (rfl : [k.modulus, k.exponent].map Element.unsigned = _)
  have hread : k.toElement = .sequence ([k.modulus, k.exponent].map Element.unsigned) := rfl
  simp only [ofInner?, hread, hseq, hns, Option.bind_eq_bind, Option.bind_some]
  exact if_pos ⟨hvalid, hlog⟩

theorem length_encode_toElement_lt : k.toElement.encode.length < 1045 := by
  have hmax : 2 * (w + 7) ≤ Der.maxLength := by
    unfold Der.maxLength
    omega
  have hlength : k.toElement.encode.length ≤ 2 * (w + 7) + 6 := by
    refine Element.length_encode_le hmax ?_
    exact Der.length_encode_unsigned_le (lt_of_mem_numbers hvalid hlt) rfl (by omega)
  omega

theorem length_toDer_le : k.toDer.length ≤ Der.maxLength :=
  (Der.length_encodePublicKey_le length_encode_algorithm_le
    (length_encode_toElement_lt hvalid hlt hw) (by decide)).trans (by decide)

theorem ofDer?_toDer : ofDer? k.toDer = some k := by
  have hdecode : Der.decodePublicKey? algorithm k.toDer = some k.toElement.encode :=
    Der.decodePublicKey?_encodePublicKey length_encode_algorithm_le
      (length_encode_toElement_lt hvalid hlt hw) (by decide) isValid_of_mem_algorithm
  rw [ofDer?, hdecode]
  exact ofInner?_encode hvalid hlt hw

end PublicKey

/-! ### Private keys -/

namespace PrivateKey

theorem isValid_of_ofBare? {bytes : Bytes} {k : PrivateKey} (h : ofBare? bytes = some k) :
    k.isValid = true := by
  simp only [ofBare?, Option.bind_eq_bind, Option.bind_eq_some_iff] at h
  obtain ⟨es, -, ns, -, h⟩ := h
  split at h
  · obtain ⟨hvalid, heq⟩ := Option.ite_none_right_eq_some.1 h
    rw [← Option.some.inj heq]
    exact hvalid
  · cases h

theorem ofDer?_of_ofBare? {bytes : Bytes} {k : PrivateKey} (h : ofBare? bytes = some k) :
    ofDer? bytes = some k := by
  rw [ofDer?, h]

theorem isValid_of_ofDer? {bytes : Bytes} {k : PrivateKey} (h : ofDer? bytes = some k) :
    k.isValid = true := by
  unfold ofDer? at h
  split at h
  case h_1 k' hbare =>
    rw [← Option.some.inj h]
    exact isValid_of_ofBare? hbare
  case h_2 =>
    obtain ⟨inner, -, hbare⟩ := Option.bind_eq_some_iff.1 h
    exact isValid_of_ofBare? hbare

section
variable {k : PrivateKey} {coefficient w : ℕ} (hvalid : k.isValid = true)
  (hlt : k.modulus < 256 ^ w) (hinverse : k.inverse < 256 ^ w) (hcoefficient : coefficient < 256 ^ w)
include hvalid hlt hinverse hcoefficient

/-- The factors are not above the modulus, and the exponents modulo their predecessors not above
the inverse exponent. -/
theorem lt_of_mem_numbers : ∀ m ∈ [0, k.modulus, k.exponent, k.inverse, k.p, k.q,
    k.inverse % (k.p - 1), k.inverse % (k.q - 1), coefficient], m < 256 ^ w := by
  have hp : k.p ≤ k.modulus := by
    rw [← modulus_eq hvalid]
    exact Nat.le_mul_of_pos_right _ (q_pos hvalid)
  have hq : k.q ≤ k.modulus := by
    rw [← modulus_eq hvalid]
    exact Nat.le_mul_of_pos_left _ (p_pos hvalid)
  have he := (PublicKey.isValid_iff.1 (isValid_iff.1 hvalid).1).2.1
  have hdp := Nat.mod_le k.inverse (k.p - 1)
  have hdq := Nat.mod_le k.inverse (k.q - 1)
  simp only [List.forall_mem_cons]
  refine ⟨by omega, hlt, by omega, hinverse, by omega, by omega, by omega, by omega,
    hcoefficient, by simp⟩

variable (hw : 9 * (w + 7) ≤ Der.maxLength)
include hw

theorem length_encode_toElement_le :
    (k.toElement coefficient).encode.length ≤ 9 * (w + 7) + 6 := by
  refine Element.length_encode_le hw ?_
  exact Der.length_encode_unsigned_le (lt_of_mem_numbers hvalid hlt hinverse hcoefficient) rfl
    (by omega)

/-- Numbers that have a place in `w` bytes are read back, whatever the coefficient is. -/
theorem ofBare?_encode : ofBare? (k.toElement coefficient).encode = some k := by
  have hseq := Der.sequence?_encode_unsigned
    (lt_of_mem_numbers hvalid hlt hinverse hcoefficient) rfl (by omega) hw
  have hns := Element.mapM_unsigned?_eq_some_iff.2
    (rfl : [0, k.modulus, k.exponent, k.inverse, k.p, k.q,
      k.inverse % (k.p - 1), k.inverse % (k.q - 1), coefficient].map Element.unsigned = _)
  simp only [ofBare?, toElement, hseq, hns, Option.bind_eq_bind, Option.bind_some]
  exact if_pos hvalid

theorem ofDer?_encode : ofDer? (k.toElement coefficient).encode = some k :=
  ofDer?_of_ofBare? (ofBare?_encode hvalid hlt hinverse hcoefficient hw)

end

/-- The exponents are inverse modulo the product of the predecessors, and so modulo each. -/
theorem isValid_ofPrimes {p q : ℕ} (hp : p % 2 = 1) (hq : q % 2 = 1) (hp3 : 3 ≤ p) (hq3 : 3 ≤ q)
    (hlt : publicExponent < p * q) (hcoprime : Nat.Coprime publicExponent ((p - 1) * (q - 1))) :
    (ofPrimes p q).isValid = true := by
  have hpos : 0 < (p - 1) * (q - 1) := Nat.mul_pos (by omega) (by omega)
  have hinverse : publicExponent * inverseMod publicExponent ((p - 1) * (q - 1)) ≡ 1
      [MOD (p - 1) * (q - 1)] := by
    rw [← ZMod.natCast_eq_natCast_iff, Nat.cast_mul, Nat.cast_one]
    exact (mul_comm _ _).trans (cast_inverseMod_mul hpos hcoprime)
  have hodd : p * q % 2 = 1 := by rw [Nat.mul_mod, hp, hq]
  have hexponent : publicExponent % 2 = 1 ∧ 2 ≤ publicExponent ∧ publicExponent.log2 < 33 := by
    decide
  refine isValid_iff.2 ⟨PublicKey.isValid_iff.2 ⟨hodd, hlt, hexponent⟩, rfl, ?_, ?_⟩
  · exact Eq.trans (hinverse.of_mul_right _) (Nat.mod_eq_of_lt (by omega))
  · exact Eq.trans (hinverse.of_mul_left _) (Nat.mod_eq_of_lt (by omega))

theorem inverse_ofPrimes_lt {p q : ℕ} (hp : 1 < p) (hq : 1 < q) :
    (ofPrimes p q).inverse < (ofPrimes p q).modulus := by
  have hpos : 0 < (p - 1) * (q - 1) := Nat.mul_pos (by omega) (by omega)
  have hle : (p - 1) * (q - 1) ≤ p * q := Nat.mul_le_mul (Nat.sub_le p 1) (Nat.sub_le q 1)
  exact lt_of_lt_of_le (inverseMod_lt publicExponent hpos) hle

end PrivateKey

end MessageCrypto.Rsa
