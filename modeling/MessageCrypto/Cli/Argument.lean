import MessageCrypto.Cli.Command

/-!
# Arguments

How arguments make a command. A subcommand is named first; it has options with a value, given in
the next argument or behind an equals sign, and at most one argument without a name. The flag
`--text` may stand before the subcommand and among its arguments. Behind `--` no argument is an
option. A value is read when it is met, so the first fault decides.

* `readProgram`: from arguments to a command.
-/

namespace MessageCrypto.Cli

/-! ### Single arguments -/

/-- An argument by its form. -/
inductive Argument where
  | endOfOptions
  | long (name : String) (value : Option String)
  | short (letter : Char)
  | word (text : String)

def Argument.ofString (s : String) : Argument :=
  match s.toList with
  | ['-', '-'] => endOfOptions
  | '-' :: '-' :: rest =>
    let name := String.ofList (rest.takeWhile (· != '='))
    match rest.dropWhile (· != '=') with
    | [] => long name none
    | _ :: value => long name (some (String.ofList value))
  | '-' :: letter :: _ => short letter
  | _ => word s

/-- A number in decimal digits, below `2^64`; a plus sign may stand in front. -/
def readLength? (s : String) : Option Nat :=
  let digits : List Char :=
    match s.toList with
    | '+' :: rest => rest
    | cs => cs
  let n : Nat := digits.foldl (fun n c => 10 * n + (c.toNat - 48)) 0
  if digits ≠ [] ∧ digits.all Char.isDigit ∧ n.log2 < 64 then some n else none

/-! ### Options -/

/-- The options that take a value. -/
inductive OptionName where
  | algorithm
  | key
  | purpose
  | encryption
  | vector
  | scheme
  | signature
  deriving DecidableEq

def OptionName.name : OptionName → String
  | algorithm => "algorithm"
  | key => "key"
  | purpose => "purpose"
  | encryption => "enc-type"
  | vector => "iv"
  | scheme => "sig-type"
  | signature => "signature"

/-- What has been given so far. -/
structure Settings where
  text : Bool := false
  algorithm : Option HashFunction := none
  key : Option String := none
  purpose : Option String := none
  encryption : Option EncryptionScheme := none
  vector : Option String := none
  scheme : Option SignatureScheme := none
  signature : Option String := none
  data : Option String := none
  length : Option Nat := none
  kind : Option KeyKind := none

/-- A setting that is made for the first time, to a value that can be read. -/
def once {α : Type} (before value : Option α) : Option α := if before.isNone then value else none

/-- The settings with one option more; an option cannot be given twice. -/
def Settings.set? (s : Settings) (o : OptionName) (v : String) : Option Settings :=
  match o with
  | .algorithm => (once s.algorithm (HashFunction.ofName? v)).map ({ s with algorithm := ·})
  | .key => (once s.key v).map ({ s with key := ·})
  | .purpose => (once s.purpose v).map ({ s with purpose := ·})
  | .encryption => (once s.encryption (EncryptionScheme.ofName? v)).map ({ s with encryption := ·})
  | .vector => (once s.vector v).map ({ s with vector := ·})
  | .scheme => (once s.scheme (SignatureScheme.ofName? v)).map ({ s with scheme := ·})
  | .signature => (once s.signature v).map ({ s with signature := ·})

/-! ### Subcommands -/

inductive Subcommand where
  | hash
  | random
  | derive
  | encrypt
  | decrypt
  | keygen
  | sign
  | verify
  | purposes
  deriving DecidableEq

namespace Subcommand

def all : List Subcommand :=
  [hash, random, derive, encrypt, decrypt, keygen, sign, verify, purposes]

def name : Subcommand → String
  | hash => "hash"
  | random => "random"
  | derive => "derive"
  | encrypt => "encrypt"
  | decrypt => "decrypt"
  | keygen => "keygen"
  | sign => "sign"
  | verify => "verify"
  | purposes => "purposes"

def ofName? (s : String) : Option Subcommand := all.find? (·.name == s)

def options : Subcommand → List OptionName
  | hash => [.algorithm]
  | derive => [.key, .purpose]
  | encrypt | decrypt => [.key, .encryption, .vector]
  | sign => [.scheme, .key]
  | verify => [.scheme, .key, .signature]
  | random | keygen | purposes => []

def option? (c : Subcommand) (name : String) : Option OptionName :=
  c.options.find? (·.name == name)

/-- The settings with the argument that has no name. -/
def setPositional? (c : Subcommand) (s : Settings) (v : String) : Option Settings :=
  match c with
  | hash | encrypt | decrypt | sign | verify => (once s.data v).map ({ s with data := ·})
  | random => (once s.length (readLength? v)).map ({ s with length := ·})
  | keygen => (once s.kind (KeyKind.ofName? v)).map ({ s with kind := ·})
  | derive | purposes => none

/-- The command, if nothing that it needs is missing. A key that is not given is taken from the
environment. -/
def command? (c : Subcommand) (s : Settings) (environmentKey : Option String) : Option Command :=
  let key := s.key <|> environmentKey
  match c with
  | hash => return .hash (s.algorithm.getD .sha256) (← s.data)
  | random => return .random (← s.length)
  | derive => return .derive (← key) (← s.purpose)
  | encrypt => return .encrypt (← key) (s.encryption.getD .aes256Cbc) s.vector (← s.data)
  | decrypt => return .decrypt (← key) (s.encryption.getD .aes256Cbc) (← s.vector) (← s.data)
  | keygen => return .keygen (← s.kind)
  | sign => return .sign (← s.scheme) (← key) (← s.data)
  | verify => return .verify (← s.scheme) (← key) (← s.signature) (← s.data)
  | purposes => return .purposes

end Subcommand

/-! ### Reading all arguments -/

/-- Why arguments make no command. -/
inductive Stop where
  | help
  | version
  | refused
  deriving DecidableEq

def orRefuse {α : Type} (x : Option α) : Except Stop α := x.elim (.error .refused) .ok

namespace Subcommand

/-- The arguments behind `--`. -/
def readPositionals (c : Subcommand) (s : Settings) : List String → Except Stop Settings
  | [] => .ok s
  | a :: rest => do readPositionals c (← orRefuse (c.setPositional? s a)) rest

/-- The arguments of a subcommand. A value in an argument of its own cannot look like an option. -/
def read (c : Subcommand) (s : Settings) : List String → Except Stop Settings
  | [] => .ok s
  | a :: rest =>
    match Argument.ofString a with
    | .endOfOptions => c.readPositionals s rest
    | .word text => do read c (← orRefuse (c.setPositional? s text)) rest
    | .short letter => .error (if letter = 'h' then .help else .refused)
    | .long "help" none => .error .help
    | .long "text" none => if s.text then .error .refused else read c { s with text := true } rest
    | .long name value =>
      match c.option? name, value, rest with
      | some o, some v, rest => do read c (← orRefuse (s.set? o v)) rest
      | some o, none, v :: rest =>
        match Argument.ofString v with
        | .word v => do read c (← orRefuse (s.set? o v)) rest
        | _ => .error .refused
      | _, _, _ => .error .refused

end Subcommand

/-- All arguments of the program: whether data is text, and the command. -/
def readProgram (environmentKey : Option String) : (text : Bool) → List String →
    Except Stop (Bool × Command)
  | _, [] => .error .refused
  | text, a :: rest =>
    match Argument.ofString a with
    | .long "text" none =>
      if text then .error .refused else readProgram environmentKey true rest
    | .long "help" none | .short 'h' => .error .help
    | .long "version" none | .short 'V' => .error .version
    | .word "help" =>
      match rest with
      | [] => .error .help
      | [name] =>
        .error (if name = "help" ∨ (Subcommand.ofName? name).isSome then .help else .refused)
      | _ => .error .refused
    | .word name => do
      let c ← orRefuse (Subcommand.ofName? name)
      let s ← c.read {} rest
      let command ← orRefuse (c.command? s environmentKey)
      .ok (text || s.text, command)
    | _ => .error .refused

end MessageCrypto.Cli
