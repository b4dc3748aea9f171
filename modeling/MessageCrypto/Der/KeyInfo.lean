import MessageCrypto.Der.Value

/-!
# Containers of keys

A public key stands in a SEQUENCE of an algorithm and a bit string. A private key stands in a
SEQUENCE of a version, an algorithm and an octet string, after which attributes, a public key and
extensions may follow. Both containers are read for one algorithm, which has to match to the last
element.

* `encodePublicKey`, `decodePublicKey?`, `encodePrivateKey`, `decodePrivateKey?`.
-/

namespace MessageCrypto.Der

/-- What identifies an algorithm: the elements of its SEQUENCE. -/
abbrev Algorithm := List Element

namespace Element

def isAlgorithm (algorithm : Algorithm) (e : Element) : Bool := e.sequence? == some algorithm

/-- Whether an element has the context-specific tag with the number. -/
def hasNumber (number : Nat) (e : Element) : Bool :=
  match e.tag with
  | .context _ m => m == number
  | _ => false

/-- An extension is wrapped in a context-specific tag of any number. -/
def isExtension (e : Element) : Bool :=
  match e.tag with
  | .context true _ => e.inner?.isSome
  | _ => false

end Element

/-! ### Public keys -/

def encodePublicKey (algorithm : Algorithm) (key : Bytes) : Bytes :=
  (Element.sequence [.sequence algorithm, .bitString key]).encode

/-- The bit string behind the algorithm. -/
def decodePublicKey? (algorithm : Algorithm) (bytes : Bytes) : Option Bytes :=
  match sequence? bytes with
  | some [identifier, key] => if identifier.isAlgorithm algorithm then key.bitString? else none
  | _ => none

/-! ### Private keys -/

def encodePrivateKey (algorithm : Algorithm) (key : Bytes) : Bytes :=
  (Element.sequence [.unsigned 0, .sequence algorithm, .octetString key]).encode

/-- Whether what follows a private key is in order: attributes tagged 0 are passed over, then the
version is 1 exactly if a bit string tagged 1 follows, and all else is extensions. -/
def isKeyTrailer (version : Nat) (es : List Element) : Bool :=
  match es.dropWhile (·.hasNumber 0) with
  | ⟨.context constructed 1, content⟩ :: es =>
    !constructed && content.head? == some 0 && version == 1 && es.all Element.isExtension
  | es => version == 0 && es.all Element.isExtension

/-- The octet string behind the algorithm. -/
def decodePrivateKey? (algorithm : Algorithm) (bytes : Bytes) : Option Bytes :=
  match sequence? bytes with
  | some (version :: identifier :: ⟨.octetString, key⟩ :: trailer) => do
    let version ← version.unsigned?
    if identifier.isAlgorithm algorithm && isKeyTrailer version trailer then some key else none
  | _ => none

end MessageCrypto.Der
