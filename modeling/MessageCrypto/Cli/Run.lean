import MessageCrypto.Agreement
import MessageCrypto.Cli.Argument
import MessageCrypto.Encryption
import MessageCrypto.Generation
import MessageCrypto.Text.Blank
import MessageCrypto.Text.Hex

/-!
# Running commands

A command decodes its byte strings in a fixed order, calls the library, and prints the result in
hexadecimal, or reports the first failure. Keys, vectors, signatures and ciphertexts are always
hexadecimal; data is hexadecimal or, in text mode, stands for its own bytes.

* `Command.run`: the output of a command or the failure.
* `runProgram`: exit code and both outputs for the arguments of the program.
-/

namespace MessageCrypto.Cli

/-! ### Failures -/

/-- A failure with the cause behind it, if it has one. -/
structure Failure where
  message : String
  cause : Option String := none
  deriving DecidableEq

def Failure.report (f : Failure) : String :=
  match f.cause with
  | none => "Error: " ++ f.message
  | some cause => "Error: " ++ f.message ++ "\n\nCaused by:\n    " ++ cause

/-- A failure of the library is reported by its text. -/
def lift {α : Type} (x : Except Error α) : Except Failure α :=
  x.mapError fun e => { message := e.message }

/-! ### Byte strings -/

/-- The bytes of a hexadecimal argument; blank characters around it are ignored. -/
def decodeHex (label value : String) : Except Failure Bytes :=
  (Hex.decode (Bytes.ofString (Text.trim value))).mapError fun e =>
    { message := label ++ " is not valid hex", cause := some e.message }

/-- The bytes of data. -/
def decodeData (text : Bool) (value : String) : Except Failure Bytes :=
  if text then .ok (Bytes.ofString value) else decodeHex "data" value

def decodeSecretKey (value : String) : Except Failure SecretKey := do
  (SecretKey.ofBytes (← decodeHex "key" value)).mapError fun e =>
    { message := "Invalid secret key", cause := some e.message }

/-! ### Commands -/

def line (s : String) : String := s ++ "\n"

def hexLine (bytes : Bytes) : String := line (Hex.encode bytes)

def hashData (function : HashFunction) (data : Bytes) : Except Failure String :=
  hexLine <$> lift (function.digest data)

def deriveKey (key purpose : String) : Except Failure String := do
  let key ← decodeSecretKey key
  let derived ← lift (key.derive purpose)
  return hexLine derived.bytes

def encryptWith (key : String) (scheme : EncryptionScheme) (data vector : Bytes) :
    Except Failure String := do
  let key ← decodeSecretKey key
  let ciphertext ← lift (encrypt key scheme vector data)
  return line ("iv:         " ++ Hex.encode vector) ++
    line ("ciphertext: " ++ Hex.encode ciphertext)

def decryptWith (key : String) (scheme : EncryptionScheme) (vector ciphertext : String) :
    Except Failure String := do
  let key ← decodeSecretKey key
  let vector ← decodeHex "iv" vector
  let ciphertext ← decodeHex "ciphertext" ciphertext
  hexLine <$> lift (decrypt key scheme vector ciphertext)

def decodeSigningKey (scheme : SignatureScheme) (key : String) : Except Failure Key := do
  if scheme.usesKeyPair then
    Key.privateHalf <$> lift (PrivateKey.ofDer scheme.keyAlgorithm (← decodeHex "key" key))
  else Key.secret <$> decodeSecretKey key

def signData (scheme : SignatureScheme) (key : String) (data : Bytes) :
    Draw (Except Failure String) :=
  Draw.after (decodeSigningKey scheme key) fun key =>
    (fun signature => hexLine <$> lift signature) <$> sign scheme key data

def verifyData (scheme : SignatureScheme) (key signature : String) (data : Bytes) :
    Except Failure String := do
  let signature ← decodeHex "signature" signature
  let key ←
    if scheme.usesKeyPair then
      Key.publicHalf <$> lift (PublicKey.ofDer scheme.keyAlgorithm (← decodeHex "key" key))
    else Key.secret <$> decodeSecretKey key
  if verify scheme key signature data then return line "valid"
  else .error { message := "Signature is not valid" }

def pairLines (pair : KeyPair) : String :=
  line ("private: " ++ Hex.encode pair.privateKey.bytes) ++
    line ("public:  " ++ Hex.encode pair.publicKey.bytes)

def generate : KeyKind → Draw (Except Failure String)
  | .aes256 => do
    let key ← SecretKey.generate
    return (fun key => line ("secret:  " ++ Hex.encode key.bytes)) <$> lift key
  | .ecP256 => do return pairLines <$> lift (← KeyPair.generateEc)
  | .rsa2048 => do return pairLines <$> lift (← KeyPair.generateRsa)

/-- A scheme and its label on each line. -/
def purposeLines : String :=
  String.join (SignatureScheme.all.map fun t => line (t.name ++ " " ++ t.purpose)) ++
    String.join (EncryptionScheme.all.map fun t => line (t.name ++ " " ++ t.purpose))

/-- The vector that was given, or a fresh one. -/
def vectorFor (scheme : EncryptionScheme) : Option String → Draw (Except Failure Bytes)
  | some vector => pure (decodeHex "iv" vector)
  | none => do
    match ← randomVector? scheme with
    | some vector => pure (.ok vector)
    | none => pure (.error { message := scheme.name ++ " does not use an IV" })

def Command.run (text : Bool) : Command → Draw (Except Failure String)
  | .hash function data => pure do hashData function (← decodeData text data)
  | .random length => do return hexLine <$> lift (← randomBytes length)
  | .derive key purpose => pure (deriveKey key purpose)
  | .encrypt key scheme vector data =>
    match decodeData text data with
    | .error e => pure (.error e)
    | .ok data => do
      let vector ← vectorFor scheme vector
      return vector.bind (encryptWith key scheme data)
  | .decrypt key scheme vector ciphertext => pure (decryptWith key scheme vector ciphertext)
  | .keygen kind => generate kind
  | .sign scheme key data => Draw.after (decodeData text data) (signData scheme key)
  | .verify scheme key signature data =>
    pure do verifyData scheme key signature (← decodeData text data)
  | .purposes => pure (.ok purposeLines)

/-! ### The program -/

structure Outcome where
  exitCode : Nat
  stdout : String
  stderr : String
  deriving DecidableEq

def Outcome.ofResult : Except Failure String → Outcome
  | .ok output => ⟨0, output, ""⟩
  | .error f => ⟨1, "", line f.report⟩

def usage : String :=
  line "Usage: securemessage [--text] <COMMAND> [OPTIONS] [ARGUMENT]" ++
    line ("Commands: " ++ " ".intercalate (Subcommand.all.map Subcommand.name))

def Outcome.ofStop : Stop → Outcome
  | .help => ⟨0, usage, ""⟩
  | .version => ⟨0, line "securemessage 0.1.0-alpha", ""⟩
  | .refused => ⟨2, "", line "error: the arguments make no command" ++ usage⟩

/-- The outcome for the arguments, with the key that the environment holds. -/
def runProgram (arguments : List String) (environmentKey : Option String) : Draw Outcome :=
  match readProgram environmentKey false arguments with
  | .error stop => pure (.ofStop stop)
  | .ok (text, command) => Outcome.ofResult <$> command.run text

end MessageCrypto.Cli
