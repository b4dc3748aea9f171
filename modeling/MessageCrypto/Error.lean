import MessageCrypto.Algorithm

/-!
# Errors

The ways in which an operation can fail. Each cause is of one kind, and its text is the text of the
kind, followed by the detail of the cause where there is one. A cause carries lengths, names and
algorithms, and no bytes of a key. What a parser has to say of an encoding that it refuses could
quote some of its bytes; it is no part of a cause.
-/

namespace MessageCrypto

/-- The kinds of failure. -/
inductive ErrorKind where
  | invalidInput
  | invalidKey
  | keyAlgorithmMismatch
  | unsupportedScheme
  | keyGenerationFailed
  | encryptionFailed
  | decryptionFailed
  | signatureFailed
  | verificationFailed
  deriving DecidableEq

/-- The encodings that a pair can fail to be written in. -/
inductive PairEncoding where
  | ecPrivate
  | ecPublic
  | rsaPrivate
  | rsaPublic
  deriving DecidableEq

/-- The causes of failure. Three of them have a text of their own for a failure that is reported in
other words, or is not reported at all:

* `noPrimeFound`: the generator of RSA keys fails, for whatever reason;
* `brokenBlocks`: the cipher refuses a key or a vector after their lengths have been checked;
* `scalarWithoutPoint`: a scalar has no public point, where elsewhere it has one by its type.

The last two do not occur. -/
inductive Error where
  | emptyMessage
  | emptyRandomRequest
  | emptyKeyMaterial
  | integerTooLong (length : Nat)
  | vectorLength (length : Nat)
  | unknownSignatureScheme (name : String)
  | unknownEncryptionScheme (name : String)
  | emptySecretKey
  | emptyEncoding
  | symmetricTag
  | keyLength (length : Nat)
  | macKeyLength
  | malformedEcPrivateKey
  | malformedEcPublicKey
  | malformedRsaPrivateKey
  | malformedRsaPublicKey
  | modulusSize (bits : Nat)
  | pointOffCurve
  | identityPoint
  | unwritablePoint
  | signingWithPublicKey
  | verifyingWithPrivateKey
  | keyAlgorithmMismatch (expected actual : KeyAlgorithm)
  | unsupportedScheme (scheme : EncryptionScheme)
  | expansionFailed
  | scalarWithoutPoint
  | unwritablePair (encoding : PairEncoding)
  | noPrimeFound
  | brokenBlocks
  | ciphertextLength (length : Nat)
  | invalidPadding
  | signingFailed
  | signatureRejected
  deriving DecidableEq

namespace Error

def kind : Error → ErrorKind
  | emptyMessage | emptyRandomRequest | emptyKeyMaterial | integerTooLong _ | vectorLength _
  | unknownSignatureScheme _ | unknownEncryptionScheme _ => .invalidInput
  | emptySecretKey | emptyEncoding | symmetricTag | keyLength _ | macKeyLength
  | malformedEcPrivateKey | malformedEcPublicKey | malformedRsaPrivateKey | malformedRsaPublicKey
  | modulusSize _ | pointOffCurve | identityPoint | unwritablePoint | signingWithPublicKey
  | verifyingWithPrivateKey => .invalidKey
  | keyAlgorithmMismatch _ _ => .keyAlgorithmMismatch
  | unsupportedScheme _ => .unsupportedScheme
  | expansionFailed | scalarWithoutPoint | unwritablePair _ | noPrimeFound => .keyGenerationFailed
  | brokenBlocks => .encryptionFailed
  | ciphertextLength _ | invalidPadding => .decryptionFailed
  | signingFailed => .signatureFailed
  | signatureRejected => .verificationFailed

/-- The detail of a cause, if its kind does not say all. Where a key is malformed or cannot be
written, and where signing fails, the parser, the writer or the algorithm that has failed has a text
of its own for the reason. That text is left out here. -/
def detail? : Error → Option String
  | emptyMessage => some "cannot hash an empty message"
  | emptyRandomRequest => some "random length must be > 0"
  | emptyKeyMaterial => some "key material must not be empty"
  | integerTooLong length => some s!"integer encoding is {length} bytes, at most 4 allowed"
  | vectorLength length => some s!"expected 16 byte IV, got {length}"
  | unknownSignatureScheme name => some s!"unknown signature type: {name}"
  | unknownEncryptionScheme name => some s!"unknown encryption type: {name}"
  | emptySecretKey => some "secret key is empty"
  | emptyEncoding => some "key encoding is empty"
  | symmetricTag => some "asymmetric key cannot be tagged aes-256"
  | keyLength length => some s!"expected 32 bytes, got {length}"
  | macKeyLength => some "Invalid Length"
  | malformedEcPrivateKey => some "malformed EC private key"
  | malformedEcPublicKey => some "malformed EC public key"
  | malformedRsaPrivateKey => some "malformed RSA private key"
  | malformedRsaPublicKey => some "malformed RSA public key"
  | modulusSize bits => some s!"expected a 2048-bit RSA modulus, got {bits} bits"
  | pointOffCurve => some "point is not on P-256"
  | identityPoint => some "public key is the identity point"
  | unwritablePoint => some "EC public key encoding failed"
  | signingWithPublicKey => some "cannot sign with a public key"
  | verifyingWithPrivateKey => some "cannot verify with a private key"
  | keyAlgorithmMismatch expected actual =>
    let wanted := expected.name
    let given := actual.name
    some s!"expected {wanted}, got {given}"
  | unsupportedScheme scheme => some scheme.name
  | expansionFailed => some "HKDF expansion failed"
  | scalarWithoutPoint => some "scalar has no public point"
  | unwritablePair .ecPrivate => some "PKCS#8 encoding failed"
  | unwritablePair .ecPublic => some "invalid key: EC public key encoding failed"
  | unwritablePair .rsaPrivate => some "PKCS#1 encoding failed"
  | unwritablePair .rsaPublic => some "SPKI encoding failed"
  | noPrimeFound => some "no prime found"
  | brokenBlocks => some "padded plaintext is not whole blocks"
  | ciphertextLength length =>
    some s!"ciphertext length {length} is not a positive multiple of 16"
  | invalidPadding => some "invalid padding"
  | signingFailed => none
  | signatureRejected => none

end Error

/-- What the text of an error of the kind starts with. -/
def ErrorKind.text : ErrorKind → String
  | invalidInput => "invalid input"
  | invalidKey => "invalid key"
  | keyAlgorithmMismatch => "key algorithm mismatch"
  | unsupportedScheme => "unsupported encryption type"
  | keyGenerationFailed => "key generation failed"
  | encryptionFailed => "encryption failed"
  | decryptionFailed => "decryption failed"
  | signatureFailed => "signature creation failed"
  | verificationFailed => "signature verification failed"

/-- The text of an error. -/
def Error.message (e : Error) : String :=
  match e.detail? with
  | some detail => e.kind.text ++ ": " ++ detail
  | none => e.kind.text

end MessageCrypto
