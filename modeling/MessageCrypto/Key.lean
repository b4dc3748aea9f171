import MessageCrypto.Bytes
import MessageCrypto.Error

/-!
# Keys

A secret key is any byte string but the empty one. An asymmetric key is the DER encoding of one
half of a pair, tagged with its algorithm; the encoding is only read when the key is used. Every
key has an algorithm, and the texts that describe secret and private keys do not show their bytes.

* `SecretKey.ofBytes`, `PrivateKey.ofDer`, `PublicKey.ofDer`: the checked constructors.
* `SecretKey.text_congr`, `PrivateKey.text_congr`: a description depends on the length or the
  algorithm alone.
-/

namespace MessageCrypto

/-! ### The kinds of keys -/

/-- A symmetric key, always for AES-256. -/
structure SecretKey where
  bytes : Bytes
  nonempty : bytes ≠ []
  deriving DecidableEq

/-- An encoded half of a key pair. -/
structure EncodedKey where
  algorithm : KeyAlgorithm
  bytes : Bytes
  asymmetric : algorithm ≠ .aes256
  nonempty : bytes ≠ []
  deriving DecidableEq

structure PrivateKey extends EncodedKey
  deriving DecidableEq

structure PublicKey extends EncodedKey
  deriving DecidableEq

/-- A key of any kind. -/
inductive Key where
  | secret (key : SecretKey)
  | privateHalf (key : PrivateKey)
  | publicHalf (key : PublicKey)
  deriving DecidableEq

/-- The halves that were generated together. -/
structure KeyPair where
  privateKey : PrivateKey
  publicKey : PublicKey

/-! ### Import -/

def SecretKey.ofBytes (bytes : Bytes) : Except Error SecretKey :=
  if h : bytes = [] then .error .emptySecretKey else .ok ⟨bytes, h⟩

def EncodedKey.ofDer (algorithm : KeyAlgorithm) (bytes : Bytes) : Except Error EncodedKey :=
  if ha : algorithm = .aes256 then .error .symmetricTag
  else if hb : bytes = [] then .error .emptyEncoding
  else .ok ⟨algorithm, bytes, ha, hb⟩

def PrivateKey.ofDer (algorithm : KeyAlgorithm) (bytes : Bytes) : Except Error PrivateKey :=
  (EncodedKey.ofDer algorithm bytes).map (⟨·⟩)

def PublicKey.ofDer (algorithm : KeyAlgorithm) (bytes : Bytes) : Except Error PublicKey :=
  (EncodedKey.ofDer algorithm bytes).map (⟨·⟩)

/-! ### Algorithm and bytes -/

namespace Key

def algorithm : Key → KeyAlgorithm
  | secret _ => .aes256
  | privateHalf key => key.algorithm
  | publicHalf key => key.algorithm

def bytes : Key → Bytes
  | secret key => key.bytes
  | privateHalf key => key.bytes
  | publicHalf key => key.bytes

end Key

/-- The key is for the expected algorithm; it is not looked into. -/
def EncodedKey.expect (expected : KeyAlgorithm) (key : EncodedKey) : Except Error Unit :=
  if key.algorithm = expected then .ok ()
  else .error (.keyAlgorithmMismatch expected key.algorithm)

/-! ### Descriptions -/

def KeyAlgorithm.constructorName : KeyAlgorithm → String
  | aes256 => "Aes256"
  | ecdsa => "Ecdsa"
  | rsa => "Rsa"

/-- What stands in place of bytes that are not shown. -/
def redacted : String := "\"[REDACTED]\""

/-- The name of a record and its fields in braces. -/
def recordText (name : String) (fields : List (String × String)) : String :=
  name ++ " \x7b " ++ ", ".intercalate (fields.map fun (field, value) => field ++ ": " ++ value) ++
    " \x7d"

def SecretKey.text (key : SecretKey) : String :=
  recordText "SecretKey" [("len", toString key.bytes.length), ("bytes", redacted)]

def PrivateKey.text (key : PrivateKey) : String :=
  recordText "PrivateKey" [("algorithm", key.algorithm.constructorName), ("bytes", redacted)]

def PublicKey.text (key : PublicKey) : String :=
  recordText "PublicKey" [("algorithm", key.algorithm.constructorName),
    ("bytes", "[" ++ ", ".intercalate (key.bytes.map fun x => toString x.toNat) ++ "]")]

def Key.text : Key → String
  | secret key => "Secret(" ++ key.text ++ ")"
  | privateHalf key => "Private(" ++ key.text ++ ")"
  | publicHalf key => "Public(" ++ key.text ++ ")"

theorem SecretKey.text_congr {a b : SecretKey} (h : a.bytes.length = b.bytes.length) :
    a.text = b.text := by
  simp [text, h]

theorem PrivateKey.text_congr {a b : PrivateKey} (h : a.algorithm = b.algorithm) :
    a.text = b.text := by
  simp [text, h]

end MessageCrypto
