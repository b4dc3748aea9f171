import MessageCrypto.Der.Value
import MessageCrypto.P256.Nonce

/-!
# ECDSA over P-256

A signature is a pair of numbers below the order `n`. It is made with a nonce `k` as the `x`
coordinate of `k` times the generator and a number that ties it to the digest and the secret
scalar; it is checked by recomputing that point from the public point alone.

* `Signature.ofDer?_eq_some_iff`: a signature is read only in its one written form.
-/

namespace MessageCrypto.P256

/-- The pair `r`, `s`. -/
structure Signature where
  r : Scalar
  s : Scalar
  deriving DecidableEq

namespace Signature

def toDer (sig : Signature) : Bytes :=
  (Der.Element.sequence [.unsigned sig.r.val, .unsigned sig.s.val]).encode

def ofDer? (bytes : Bytes) : Option Signature := do
  let es ← Der.sequence? bytes
  match ← es.mapM Der.Element.unsigned? with
  | [r, s] => some ⟨← Scalar.ofNat? r, ← Scalar.ofNat? s⟩
  | _ => none

theorem length_unsignedContent_le (d : Scalar) :
    (Der.Element.unsignedContent d.val).length ≤ 33 := by
  have h : d.val.log2 < 256 := (Nat.log2_lt (by have := d.pos; omega)).2 (by
    have := d.lt
    unfold n at this
    omega)
  rw [Der.Element.length_unsignedContent]
  omega

theorem ofNat?_val (d : Scalar) : Scalar.ofNat? d.val = some d := by
  simp [Scalar.ofNat?, d.pos, d.lt]

theorem eq_val_of_ofNat? {k : Nat} {d : Scalar} (h : Scalar.ofNat? k = some d) : k = d.val := by
  unfold Scalar.ofNat? at h
  split at h
  · exact congrArg Scalar.val (Option.some.inj h)
  · simp at h

theorem sequence?_toDer (sig : Signature) :
    Der.sequence? sig.toDer = some [.unsigned sig.r.val, .unsigned sig.s.val] := by
  have hr := length_unsignedContent_le sig.r
  have hs := length_unsignedContent_le sig.s
  have h33 : 33 ≤ Der.maxLength := by decide
  have short {k : Nat} (h : k ≤ 33) : Der.lengthOctets k = [UInt8.ofNat k] := by
    simp [Der.lengthOctets, show k < 128 by omega]
  refine Der.sequence?_eq_some_iff.2 ⟨rfl, ?_, ?_⟩
  · simp only [List.mem_cons, List.not_mem_nil, or_false, forall_eq_or_imp, forall_eq]
    exact ⟨⟨rfl, Nat.le_trans hr h33⟩, ⟨rfl, Nat.le_trans hs h33⟩⟩
  · simp only [Der.encode, List.flatMap_cons, List.flatMap_nil, Der.Element.encode,
      Der.Element.unsigned, short hr, short hs, List.length_append, List.length_cons,
      List.length_nil]
    unfold Der.maxLength
    omega

theorem ofDer?_toDer (sig : Signature) : ofDer? sig.toDer = some sig := by
  simp [ofDer?, sequence?_toDer, ofNat?_val]

theorem eq_toDer_of_ofDer? {bytes : Bytes} {sig : Signature} (h : ofDer? bytes = some sig) :
    bytes = sig.toDer := by
  simp only [ofDer?, Option.bind_eq_bind, Option.bind_eq_some_iff,
    Der.Element.mapM_unsigned?_eq_some_iff] at h
  obtain ⟨es, hes, ns, rfl, h⟩ := h
  split at h
  case h_2 => simp at h
  case h_1 r s =>
    simp only [Option.bind_eq_some_iff, Option.some.injEq] at h
    obtain ⟨r', hr, s', hs, rfl⟩ := h
    rw [(Der.sequence?_eq_some_iff.1 hes).1, eq_val_of_ofNat? hr, eq_val_of_ofNat? hs]
    rfl

/-- A signature is read only in its one written form. -/
theorem ofDer?_eq_some_iff {bytes : Bytes} {sig : Signature} :
    ofDer? bytes = some sig ↔ bytes = sig.toDer :=
  ⟨eq_toDer_of_ofDer?, fun h => h ▸ ofDer?_toDer sig⟩

end Signature

/-- The inverse modulo `n`. -/
def inverseMod (k : Nat) : Nat := powerMod n k (n - 2)

/-- The `x` coordinate as a number modulo `n`; zero at infinity. -/
def Point.xMod : Point → Nat
  | infinity => 0
  | affine x _ => x.val % n

namespace Ecdsa

/-- The signature of a digest with a given nonce, none if one of its numbers is zero. -/
def signWith? (k d : Scalar) (digest : Bytes) : Option Signature := do
  let z := Bytes.toNat digest
  let r := (Point.multiple k.val Point.generator).xMod
  let s := inverseMod k.val * (z + r * d.val) % n
  let r ← Scalar.ofNat? r
  let s ← Scalar.ofNat? s
  some ⟨r, s⟩

def sign? (d : Scalar) (digest : Bytes) : Option Signature := signWith? (nonce d digest) d digest

/-- The point that the signer's nonce must have had. -/
def noncePoint (q : CurvePoint) (digest : Bytes) (sig : Signature) : Point :=
  let w := inverseMod sig.s.val
  let u := Bytes.toNat digest * w % n
  let v := sig.r.val * w % n
  Point.add (Point.multiple u Point.generator) (Point.multiple v q.toPoint)

def verify (q : CurvePoint) (digest : Bytes) (sig : Signature) : Bool :=
  let point := noncePoint q digest sig
  point ≠ .infinity && point.xMod == sig.r.val

end Ecdsa

end MessageCrypto.P256
