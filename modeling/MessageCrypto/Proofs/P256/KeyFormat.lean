import MessageCrypto.Proofs.P256.Count

/-! # What is written for a scalar

The octets of a scalar have one width, and behind them stands its public point. Every scalar has
one, as the generator has the order `n`. All of it is short enough to be read back.

* `Scalar.publicPoint?_eq_some_iff`, `Scalar.exists_publicPoint`: the public point of a scalar.
* `Scalar.length_toDer_le`: the length of the container. -/

namespace MessageCrypto.P256

/-! ### Public points -/

theorem CurvePoint.ofPoint?_eq_some_iff {r : Point} {q : CurvePoint} :
    ofPoint? r = some q ↔ q.toPoint = r := by
  cases r with
  | infinity => simp [ofPoint?, toPoint]
  | affine x y => rw [ofPoint?, ofCoordinates?_eq_some_iff, toPoint, Point.affine.injEq]

namespace Scalar

open Der (Element)

variable {d : Scalar} {q : CurvePoint}

theorem publicPoint?_eq_some_iff :
    d.publicPoint? = some q ↔ q.toPoint = Point.multiple d.val Point.generator :=
  CurvePoint.ofPoint?_eq_some_iff

theorem exists_publicPoint (d : Scalar) : ∃ q, d.publicPoint? = some q := by
  obtain ⟨q, -, hq⟩ := CurvePoint.exists_multiple d .generator
  exact ⟨q, publicPoint?_eq_some_iff.2 hq⟩

/-! ### Octets -/

theorem length_toBytes (d : Scalar) : d.toBytes.length = 32 := Bytes.length_ofNat _ _

theorem toNat_toBytes (d : Scalar) : Bytes.toNat d.toBytes = d.val := by
  have hlt : d.val < Nat.pow 256 32 := d.lt.trans (by decide)
  rw [toBytes, Bytes.toNat_ofNat, Nat.mod_eq_of_lt hlt]

/-! ### Lengths -/

/-- The elements of the inner SEQUENCE. -/
def innerElements (d : Scalar) (q : CurvePoint) : List Element :=
  [.unsigned 1, .octetString d.toBytes, .tagged 1 (.bitString q.uncompressed)]

theorem length_content_le_of_mem_innerElements :
    ∀ e ∈ innerElements d q, e.content.length ≤ 72 := by
  have hwrapped : (Element.bitString q.uncompressed).encode.length ≤ 66 + 6 := by
    refine Element.length_encode_le (by decide) ?_
    rw [Element.bitString, List.length_cons, q.length_uncompressed]
  have hoctets := length_toBytes d
  simp only [innerElements, List.forall_mem_cons]
  exact ⟨by decide, hoctets.le.trans (by decide), hwrapped, by simp⟩

theorem length_encode_innerElements_lt (d : Scalar) (q : CurvePoint) :
    (Element.sequence (innerElements d q)).encode.length < 241 := by
  have hcontent : (Der.encode (innerElements d q)).length ≤ (innerElements d q).length * (72 + 6) :=
    Der.length_encode_le (by decide) length_content_le_of_mem_innerElements
  have hcount : (innerElements d q).length = 3 := rfl
  rw [hcount] at hcontent
  exact Nat.lt_succ_of_le (Element.length_encode_le (by decide) hcontent)

theorem length_encode_algorithm_le : (Der.encode algorithm).length ≤ 241 := by
  have hlength : (Der.encode algorithm).length = 19 := rfl
  rw [hlength]
  decide

theorem toDer_eq (d : Scalar) (q : CurvePoint) : d.toDer q =
    Der.encodePrivateKey algorithm (Element.sequence (innerElements d q)).encode := by
  rw [toDer, innerElements]

theorem length_toDer_le (d : Scalar) (q : CurvePoint) : (d.toDer q).length ≤ Der.maxLength := by
  rw [toDer_eq]
  exact (Der.length_encodePrivateKey_le length_encode_algorithm_le
    (length_encode_innerElements_lt d q) (by decide)).trans (by decide)

end Scalar

end MessageCrypto.P256
