import MessageCrypto.Derivation
import MessageCrypto.P256.Ecdsa
import MessageCrypto.P256.KeyFormat
import MessageCrypto.Rsa.Signature

/-!
# Signatures

Three ways to sign: a tag under a secret key, and signatures of the SHA-256 digest with ECDSA or
RSA. Signing under a scheme takes a key of any kind and decides whether it fits; a secret key is a
master key there, from which the key of the scheme is derived. The empty message can be signed.

* `Hmac.sign`, `Ecdsa.sign`, `Rsa2048.sign` and their `verify`: with the key itself. Signing with RSA
  draws random bytes, the others do not.
* `Hmac.tag_eq`: every key makes tags.
* `sign`, `verify`: under a scheme.
-/

namespace MessageCrypto

/-! ### Reading keys -/

def PrivateKey.toScalar (key : PrivateKey) : Except Error P256.Scalar := do
  key.expect .ecdsa
  (P256.Scalar.ofDer? key.bytes).elim (.error .malformedEcPrivateKey) .ok

def PublicKey.toPoint (key : PublicKey) : Except Error P256.CurvePoint := do
  key.expect .ecdsa
  (P256.CurvePoint.ofDer? key.bytes).elim (.error .malformedEcPublicKey) .ok

def PrivateKey.toRsa (key : PrivateKey) : Except Error Rsa.PrivateKey := do
  key.expect .rsa
  (Rsa.PrivateKey.ofDer? key.bytes).elim (.error .malformedRsaPrivateKey) .ok

def PublicKey.toRsa (key : PublicKey) : Except Error Rsa.PublicKey := do
  key.expect .rsa
  (Rsa.PublicKey.ofDer? key.bytes).elim (.error .malformedRsaPublicKey) .ok

/-! ### Writing keys -/

/-- The private key with an encoding, if that can be written. -/
def PrivateKey.write (algorithm : KeyAlgorithm) (failure : Error) (bytes : Bytes) :
    Except Error PrivateKey :=
  (Der.written? bytes).elim (.error failure) (PrivateKey.ofDer algorithm)

/-- The public key with an encoding, if that can be written. -/
def PublicKey.write (algorithm : KeyAlgorithm) (failure : Error) (bytes : Bytes) :
    Except Error PublicKey :=
  (Der.written? bytes).elim (.error failure) (PublicKey.ofDer algorithm)

/-- The key of a point. -/
def PublicKey.ofPoint (q : P256.CurvePoint) : Except Error PublicKey :=
  PublicKey.write .ecdsa .unwritablePoint q.toDer

/-- The outcome of a check. -/
def accept (ok : Bool) : Except Error Unit := if ok then .ok () else .error .signatureRejected

/-! ### With the key itself -/

namespace Hmac

/-- The number of bytes of a tag. -/
def size : Nat := 32

def sign (key : SecretKey) (data : Bytes) : Bytes := Hash.hmac key.bytes data

theorem length_sign (key : SecretKey) (data : Bytes) : (sign key data).length = size :=
  Hash.length_hmac _ _

/-- The tag under a key, if the key can be brought to the length of a hash block. -/
def tag (key : SecretKey) (data : Bytes) : Except Error Bytes :=
  if (Hash.Hmac.blockKey key.bytes).length = 64 then .ok (sign key data)
  else .error .macKeyLength

theorem tag_eq (key : SecretKey) (data : Bytes) : tag key data = .ok (sign key data) :=
  if_pos (Hash.Hmac.length_blockKey _)

def verify (key : SecretKey) (signature data : Bytes) : Except Error Unit := do
  let expected ← tag key data
  accept (signature = expected)

end Hmac

namespace Ecdsa

def sign (key : PrivateKey) (data : Bytes) : Except Error Bytes := do
  let d ← key.toScalar
  match P256.Ecdsa.sign? d (Hash.sha256 data) with
  | some signature => .ok signature.toDer
  | none => .error .signingFailed

def verify (key : PublicKey) (signature data : Bytes) : Except Error Unit := do
  let q ← key.toPoint
  match P256.Signature.ofDer? signature with
  | some signature => accept (P256.Ecdsa.verify q (Hash.sha256 data) signature)
  | none => .error .signatureRejected

end Ecdsa

namespace Rsa2048

/-- The number of bits of a modulus. -/
def modulusBits : Nat := 2048

/-- The modulus takes as many bytes as one of `modulusBits` bits. -/
def checkSize (key : Rsa.PublicKey) : Except Error Unit :=
  if 8 * key.size = modulusBits then .ok () else .error (.modulusSize (8 * key.size))

/-- The numbers of a key that can sign. -/
def signingKey (key : PrivateKey) : Except Error Rsa.PrivateKey := do
  let key ← key.toRsa
  checkSize key.toPublicKey
  return key

def sign (key : PrivateKey) (data : Bytes) : Draw (Except Error Bytes) :=
  Draw.after (signingKey key) fun k =>
    (fun s => s.elim (.error .signingFailed) .ok) <$> Rsa.sign? k (Hash.sha256 data)

def verify (key : PublicKey) (signature data : Bytes) : Except Error Unit := do
  let key ← key.toRsa
  checkSize key
  accept (Rsa.verify key (Hash.sha256 data) signature)

end Rsa2048

/-! ### Under a scheme -/

/-- The scheme with a name. -/
def SignatureScheme.read (name : String) : Except Error SignatureScheme :=
  (ofName? name).elim (.error (.unknownSignatureScheme name)) .ok

def sign (scheme : SignatureScheme) (key : Key) (data : Bytes) : Draw (Except Error Bytes) :=
  match scheme, key with
  | .hmacSha256, .secret master => pure do
    let key ← master.derive scheme.purpose
    Hmac.tag key data
  | .ecdsaP256Sha256, .privateHalf key => pure (Ecdsa.sign key data)
  | .rsa2048Sha256, .privateHalf key => Rsa2048.sign key data
  | _, .publicHalf _ => pure (.error .signingWithPublicKey)
  | _, key => pure (.error (.keyAlgorithmMismatch scheme.keyAlgorithm key.algorithm))

/-- Why a signature is not accepted. -/
def check (scheme : SignatureScheme) (key : Key) (signature data : Bytes) : Except Error Unit :=
  match scheme, key with
  | .hmacSha256, .secret master => do
    let key ← master.derive scheme.purpose
    Hmac.verify key signature data
  | .ecdsaP256Sha256, .publicHalf key => Ecdsa.verify key signature data
  | .rsa2048Sha256, .publicHalf key => Rsa2048.verify key signature data
  | _, .privateHalf _ => .error .verifyingWithPrivateKey
  | _, key => .error (.keyAlgorithmMismatch scheme.keyAlgorithm key.algorithm)

/-- A signature counts as not valid whatever the reason. -/
def verify (scheme : SignatureScheme) (key : Key) (signature data : Bytes) : Bool :=
  match check scheme key signature data with
  | .ok () => true
  | .error _ => false

end MessageCrypto
