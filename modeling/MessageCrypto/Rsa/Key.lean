import MessageCrypto.Der.KeyInfo

/-!
# RSA keys

A public key is a modulus and an exponent. A private key adds the inverse exponent and two factors
of the modulus. What is read from a byte string has passed the checks of `isValid`; that the
factors are prime is not among them.

* `PublicKey.ofDer?`, `PublicKey.toDer`: the container of a public key.
* `PrivateKey.ofDer?`, `PrivateKey.toDer`: a private key, bare or in a container.
-/

namespace MessageCrypto.Rsa

open Der (Element)

/-- RSA encryption, with no parameters. -/
def algorithm : Der.Algorithm :=
  [⟨.objectIdentifier, [0x2a, 0x86, 0x48, 0x86, 0xf7, 0x0d, 0x01, 0x01, 0x01]⟩, ⟨.null, []⟩]

/-! ### Public keys -/

structure PublicKey where
  modulus : Nat
  exponent : Nat
  deriving DecidableEq

namespace PublicKey

/-- The number of bytes that the modulus takes. -/
def size (k : PublicKey) : Nat := k.modulus.log2 / 8 + 1

/-- An odd modulus, and an odd exponent from 3 to `2^33` that is below the modulus. -/
def isValid (k : PublicKey) : Bool :=
  k.modulus % 2 == 1 && k.exponent < k.modulus &&
    k.exponent % 2 == 1 && 2 ≤ k.exponent && k.exponent.log2 < 33

def toElement (k : PublicKey) : Element := .sequence [.unsigned k.modulus, .unsigned k.exponent]

def toDer (k : PublicKey) : Bytes := Der.encodePublicKey algorithm k.toElement.encode

/-- The numbers of the inner SEQUENCE; a public modulus has at most 4096 bits. -/
def ofInner? (bytes : Bytes) : Option PublicKey := do
  let es ← Der.sequence? bytes
  match ← es.mapM Element.unsigned? with
  | [n, e] => if isValid ⟨n, e⟩ ∧ n.log2 < 4096 then some ⟨n, e⟩ else none
  | _ => none

def ofDer? (bytes : Bytes) : Option PublicKey :=
  (Der.decodePublicKey? algorithm bytes).bind ofInner?

end PublicKey

/-! ### Private keys -/

structure PrivateKey extends PublicKey where
  /-- The inverse exponent. -/
  inverse : Nat
  p : Nat
  q : Nat
  deriving DecidableEq

namespace PrivateKey

/-- A valid public key, the product of the factors, and exponents that are inverse modulo each
factor less one. -/
def isValid (k : PrivateKey) : Bool :=
  k.toPublicKey.isValid && k.p * k.q == k.modulus &&
    k.exponent * k.inverse % (k.p - 1) == 1 && k.exponent * k.inverse % (k.q - 1) == 1

/-- Version 0, the five numbers, and three more that stand in the format but are not used in
reading: the inverse exponent modulo each factor less one, and the inverse of the second factor
modulo the first. -/
def toElement (k : PrivateKey) (coefficient : Nat) : Element :=
  .sequence <| [0, k.modulus, k.exponent, k.inverse, k.p, k.q,
    k.inverse % (k.p - 1), k.inverse % (k.q - 1), coefficient].map .unsigned

def ofBare? (bytes : Bytes) : Option PrivateKey := do
  let es ← Der.sequence? bytes
  match ← es.mapM Element.unsigned? with
  | [0, n, e, d, p, q, _, _, _] =>
    if isValid ⟨⟨n, e⟩, d, p, q⟩ then some ⟨⟨n, e⟩, d, p, q⟩ else none
  | _ => none

/-- A bare key, or else one in a container. -/
def ofDer? (bytes : Bytes) : Option PrivateKey :=
  match ofBare? bytes with
  | some k => some k
  | none => (Der.decodePrivateKey? algorithm bytes).bind ofBare?

end PrivateKey

end MessageCrypto.Rsa
