import MessageCrypto.Der.KeyInfo
import MessageCrypto.P256.Scalar

/-!
# P-256 keys as byte strings

A public key is a container of a point. A private key is a container of a SEQUENCE with the
scalar, in which the name of a curve and the public point may follow; the name has to be one but
is not compared, and the point has to be the scalar's.

* `CurvePoint.ofDer?`, `CurvePoint.toDer`, `Scalar.ofDer?`, `Scalar.toDer?`.
-/

namespace MessageCrypto.P256

/-- Keys on elliptic curves, and the curve P-256. -/
def algorithm : Der.Algorithm :=
  [⟨.objectIdentifier, [0x2a, 0x86, 0x48, 0xce, 0x3d, 0x02, 0x01]⟩,
    ⟨.objectIdentifier, [0x2a, 0x86, 0x48, 0xce, 0x3d, 0x03, 0x01, 0x07]⟩]

namespace CurvePoint

def toDer (q : CurvePoint) : Bytes := Der.encodePublicKey algorithm q.uncompressed

def ofDer? (bytes : Bytes) : Option CurvePoint :=
  (Der.decodePublicKey? algorithm bytes).bind ofBytes?

/-- Whether a byte string is one of the two written forms of a point. -/
def isWritten (q : CurvePoint) (bytes : Bytes) : Bool :=
  bytes == q.uncompressed || bytes == q.compressed

end CurvePoint

namespace Scalar

open Der (Element)

/-- What follows the name of a curve, if one stands in front. -/
def skipCurve? : List Element → Option (List Element)
  | ⟨.context constructed 0, content⟩ :: es =>
    match Element.inner? ⟨.context constructed 0, content⟩ with
    | some ⟨.objectIdentifier, name⟩ =>
      if constructed && Element.isIdentifier name then some es else none
    | _ => none
  | es => some es

/-- Whether an element wraps, under the tag 1, the public point of the scalar. -/
def isPublicPoint (d : Scalar) (e : Element) : Bool :=
  match e.tag, e.inner?.bind Element.bitString? with
  | .context true 1, some bytes => d.publicPoint?.any (·.isWritten bytes)
  | _, _ => false

/-- Whether what follows the scalar's octets is in order. -/
def isTrailer (d : Scalar) (es : List Element) : Bool :=
  match skipCurve? es with
  | none => false
  | some es =>
    match es.dropWhile (·.hasNumber 0) with
    | [] => true
    | [e] => d.isPublicPoint e
    | _ => false

/-- The scalar of the inner SEQUENCE, whose version is 1. -/
def ofInner? (bytes : Bytes) : Option Scalar :=
  match Der.sequence? bytes with
  | some (version :: ⟨.octetString, octets⟩ :: trailer) => do
    let d ← ofBytes? octets
    if version.unsigned? == some 1 && d.isTrailer trailer then some d else none
  | _ => none

def ofDer? (bytes : Bytes) : Option Scalar :=
  (Der.decodePrivateKey? algorithm bytes).bind ofInner?

/-- The container with the scalar and its public point. -/
def toDer (d : Scalar) (q : CurvePoint) : Bytes :=
  Der.encodePrivateKey algorithm
    (Element.sequence
      [.unsigned 1, .octetString d.toBytes, .tagged 1 (.bitString q.uncompressed)]).encode

end Scalar

end MessageCrypto.P256
