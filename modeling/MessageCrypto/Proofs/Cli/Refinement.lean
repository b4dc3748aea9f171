import MessageCrypto.Proofs.Cli.CommandLine
import MessageCrypto.Proofs.Cli.Decoding

/-! # The program refines the library

A command decodes its inputs in a fixed order and makes one call. Each step fails on its own terms:
an input if its text stands for nothing, the call for its cause. The program shows the result of the
call if there is one, and otherwise the failure of the first step that fails, and nothing else. What
the call draws is all that the program draws.

* `Command.inputs`, `Command.Calls`: the inputs in order, and the call that they make.
* `shown`, `Prints`, `Reports`: what is shown of the outcome of a call.
* `FirstFails`, `Refines`: the failure that is reported; what a computation shows of a command.
* `program_refines_library`: the outcomes of the program. -/

namespace MessageCrypto.Cli

variable {text : Bool} {command : Command} {c : Call} {f : Failure}

/-! ### The inputs in order -/

/-- What an input is for. -/
inductive Role where
  | data
  | vector
  | signature
  | ciphertext
  | key (kind : Key.Kind) (algorithm : KeyAlgorithm)

/-- A byte string that is typed. -/
structure Input where
  role : Role
  value : String

/-- **The input does not decode**, and the failure is its own. Data in text mode always decodes. -/
def Input.Fails (text : Bool) (input : Input) (f : Failure) : Prop :=
  match input.role with
  | .data => DataFails text input.value f
  | .vector => HexFails "iv" input.value f
  | .signature => HexFails "signature" input.value f
  | .ciphertext => HexFails "ciphertext" input.value f
  | .key kind algorithm => KeyFails kind algorithm input.value f

/-- **The inputs in the order of decoding**, for the commands that decode some and draw no vector. -/
def Command.inputs : Command → List Input
  | .hash _ data => [⟨.data, data⟩]
  | .derive key _ => [⟨.key .secret .aes256, key⟩]
  | .encrypt key _ (some vector) data =>
    [⟨.data, data⟩, ⟨.vector, vector⟩, ⟨.key .secret .aes256, key⟩]
  | .decrypt key _ vector ciphertext =>
    [⟨.key .secret .aes256, key⟩, ⟨.vector, vector⟩, ⟨.ciphertext, ciphertext⟩]
  | .sign scheme key data => [⟨.data, data⟩, ⟨.key scheme.signingKind scheme.keyAlgorithm, key⟩]
  | .verify scheme key signature data => [⟨.data, data⟩, ⟨.signature, signature⟩,
    ⟨.key scheme.verifyingKind scheme.keyAlgorithm, key⟩]
  | .encrypt _ _ none _ | .random _ | .keygen _ | .purposes => []

/-! ### The call -/

/-- **The call that a command makes** when all its inputs decode. -/
inductive Command.Calls (text : Bool) : Command → Call → Prop
  | hash {function : HashFunction} {data : String} {message : Bytes}
      (hdata : DataDecodes text data message) :
      Calls text (.hash function data) (.digest function message)
  | derive {key purpose : String} {master : SecretKey}
      (hkey : KeyDecodes .secret .aes256 key (.secret master)) :
      Calls text (.derive key purpose) (.derive master purpose)
  | encrypt {key vector data : String} {scheme : EncryptionScheme} {master : SecretKey}
      {iv plaintext : Bytes} (hdata : DataDecodes text data plaintext)
      (hvector : HexDecodes vector iv) (hkey : KeyDecodes .secret .aes256 key (.secret master)) :
      Calls text (.encrypt key scheme (some vector) data) (.encrypt master scheme iv plaintext)
  | decrypt {key vector ciphertext : String} {scheme : EncryptionScheme} {master : SecretKey}
      {iv blocks : Bytes} (hkey : KeyDecodes .secret .aes256 key (.secret master))
      (hvector : HexDecodes vector iv) (hciphertext : HexDecodes ciphertext blocks) :
      Calls text (.decrypt key scheme vector ciphertext) (.decrypt master scheme iv blocks)
  | sign {scheme : SignatureScheme} {key data : String} {K : Key} {message : Bytes}
      (hdata : DataDecodes text data message)
      (hkey : KeyDecodes scheme.signingKind scheme.keyAlgorithm key K) :
      Calls text (.sign scheme key data) (.sign scheme K message)
  | verify {scheme : SignatureScheme} {key signature data : String} {K : Key}
      {message s : Bytes} (hdata : DataDecodes text data message)
      (hsignature : HexDecodes signature s)
      (hkey : KeyDecodes scheme.verifyingKind scheme.keyAlgorithm key K) :
      Calls text (.verify scheme key signature data) (.verify scheme K s message)

/-- The two lines that encryption writes. -/
def encryptionLines (vector ciphertext : Bytes) : String :=
  line ("iv:         " ++ Hex.encode vector) ++ line ("ciphertext: " ++ Hex.encode ciphertext)

/-- **The layout of a result**, with byte strings in hexadecimal; none if the output is no result of
the call. -/
def layout? : Call → Output → Option String
  | .encrypt _ _ vector _, .bytes ciphertext => some (encryptionLines vector ciphertext)
  | .digest _ _, .bytes bytes | .decrypt _ _ _ _, .bytes bytes | .sign _ _ _, .bytes bytes =>
    some (hexLine bytes)
  | .derive _ _, .key (.secret derived) => some (hexLine derived.bytes)
  | .verify _ _ _ _, .verdict true => some (line "valid")
  | _, _ => none

/-- **What is shown of the outcome of a call**: its result, the text of its cause, or that what it
checks is not valid. -/
def shown (c : Call) : Except Error Output → Except Failure String
  | .ok out => (layout? c out).elim (.error { message := "Signature is not valid" }) .ok
  | .error e => .error { message := e.message }

theorem shown_eq_ok_iff {x : Except Error Output} {output : String} :
    shown c x = .ok output ↔ ∃ out, x = .ok out ∧ layout? c out = some output := by
  cases x with
  | error e => simp [shown]
  | ok out => cases hlayout : layout? c out <;> simp [shown, hlayout]

theorem shown_eq_error_iff {x : Except Error Output} : shown c x = .error f ↔
    (∃ e, x = .error e ∧ f = { message := e.message }) ∨
      ∃ out, x = .ok out ∧ layout? c out = none ∧ f = { message := "Signature is not valid" } := by
  cases x with
  | error e => simp [shown, eq_comm]
  | ok out => cases hlayout : layout? c out <;> simp [shown, hlayout, eq_comm]

/-- The call can succeed, and this is shown of what it returns. -/
def Prints (c : Call) (output : String) : Prop := ∃ out, c.Returns out ∧ layout? c out = some output

/-- The call can come to nothing: it fails for a cause, or what it checks is not valid. -/
def Reports (c : Call) (f : Failure) : Prop :=
  (∃ e, c.Fails e ∧ f = { message := e.message }) ∨
    c.Returns (.verdict false) ∧ f = { message := "Signature is not valid" }

theorem Command.Calls.unique {d : Call} (h : command.Calls text c) (h' : command.Calls text d) :
    c = d := by
  cases h with
  | hash hdata =>
    cases h' with
    | hash hdata' => rw [hdata.unique hdata']
  | derive hkey =>
    cases h' with
    | derive hkey' => rw [Key.secret.inj (hkey.unique hkey')]
  | encrypt hdata hvector hkey =>
    cases h' with
    | encrypt hdata' hvector' hkey' =>
      rw [hdata.unique hdata', hvector.unique hvector', Key.secret.inj (hkey.unique hkey')]
  | decrypt hkey hvector hciphertext =>
    cases h' with
    | decrypt hkey' hvector' hciphertext' =>
      rw [Key.secret.inj (hkey.unique hkey'), hvector.unique hvector',
        hciphertext.unique hciphertext']
  | sign hdata hkey =>
    cases h' with
    | sign hdata' hkey' => rw [hdata.unique hdata', hkey.unique hkey']
  | verify hdata hsignature hkey =>
    cases h' with
    | verify hdata' hsignature' hkey' =>
      rw [hdata.unique hdata', hsignature.unique hsignature', hkey.unique hkey']

theorem Command.Calls.not_fails (h : command.Calls text c) :
    ∀ input ∈ command.inputs, ¬ input.Fails text f := by
  cases h with
  | hash hdata => simp [inputs, Input.Fails, hdata.not_fails]
  | derive hkey => simp [inputs, Input.Fails, hkey.not_fails]
  | encrypt hdata hvector hkey =>
    simp [inputs, Input.Fails, hdata.not_fails, hvector.not_fails, hkey.not_fails]
  | decrypt hkey hvector hciphertext =>
    simp [inputs, Input.Fails, hkey.not_fails, hvector.not_fails, hciphertext.not_fails]
  | sign hdata hkey => simp [inputs, Input.Fails, hdata.not_fails, hkey.not_fails]
  | verify hdata hsignature hkey =>
    simp [inputs, Input.Fails, hdata.not_fails, hsignature.not_fails, hkey.not_fails]

/-! ### The first step that fails -/

/-- **The failure of the first step that fails**, where a step is given by its failures. -/
def FirstFails : List (Failure → Prop) → Failure → Prop
  | [], _ => False
  | step :: steps, f => step f ∨ (∀ g, ¬ step g) ∧ FirstFails steps f

section FirstFails
variable {step : Failure → Prop} {steps : List (Failure → Prop)}

theorem firstFails_cons_of_fails {g : Failure} (h : step g) :
    FirstFails (step :: steps) f ↔ step f := by
  constructor
  · rintro (hf | ⟨hnone, -⟩)
    · exact hf
    · exact absurd h (hnone g)
  · exact .inl

theorem firstFails_cons_of_not_fails (h : ∀ g, ¬ step g) :
    FirstFails (step :: steps) f ↔ FirstFails steps f := by
  constructor
  · rintro (hf | ⟨-, hrest⟩)
    · exact absurd hf (h f)
    · exact hrest
  · exact fun hrest => .inr ⟨h, hrest⟩

theorem firstFails_singleton_iff : FirstFails [step] f ↔ step f := by
  simp only [FirstFails, and_false, or_false]

end FirstFails

/-! ### Refinement -/

/-- All inputs decode, and the call that they make can come to nothing. -/
def Command.CallFails (text : Bool) (command : Command) (f : Failure) : Prop :=
  ∃ c, command.Calls text c ∧ Reports c f

/-- **The steps of a command**: its inputs in order, and then the call. -/
def Command.steps (text : Bool) (command : Command) : List (Failure → Prop) :=
  command.inputs.map (Input.Fails text) ++ [command.CallFails text]

/-- **The computation shows what the command asks for**: whatever it draws, the result of its call if
there is one, or else the failure of the first of the steps that are left. It draws for the call, and
without a call it draws nothing. -/
structure Refines (text : Bool) (command : Command) (steps : List (Failure → Prop))
    (d : Draw (Except Failure String)) : Prop where
  run_eq : ∀ c, command.Calls text c → d = shown c <$> c.run
  pure_of_not_calls : (¬ ∃ c, command.Calls text c) → ∃ x, d = pure x
  ok_iff : ∀ output, d.Yields (.ok output) ↔ ∃ c, command.Calls text c ∧ Prints c output
  error_iff : ∀ f, d.Yields (.error f) ↔ FirstFails steps f

namespace Refines

variable {α : Type} {steps : List (Failure → Prop)}

/-- Decoding an input is a step before the others. -/
theorem after {x : Except Failure α} {k : α → Draw (Except Failure String)} {input : Input}
    (hmem : input ∈ command.inputs) (hx : ∀ f, x = .error f ↔ input.Fails text f)
    (hk : ∀ a, x = .ok a → Refines text command steps (k a)) :
    Refines text command (input.Fails text :: steps) (Draw.after x k) := by
  cases x with
  | error e =>
    have he : input.Fails text e := (hx e).1 rfl
    -- a call needs every input, so there is none
    have hnone (c : Call) : ¬ command.Calls text c := fun hc => hc.not_fails input hmem he
    refine ⟨fun c hc => absurd hc (hnone c), fun _ => ⟨_, rfl⟩, fun output => ?_, fun f => ?_⟩
    · simp only [Draw.after_error, Draw.yields_pure, reduceCtorEq, hnone, false_and, exists_false]
    · rw [firstFails_cons_of_fails he, ← hx f, Draw.after_error, Draw.yields_pure,
        Except.error.injEq, Except.error.injEq, eq_comm]
  | ok a =>
    have hpass : ∀ g, ¬ input.Fails text g := by
      intro g hg
      cases (hx g).2 hg
    refine ⟨(hk a rfl).run_eq, (hk a rfl).pure_of_not_calls, (hk a rfl).ok_iff, fun f => ?_⟩
    rw [firstFails_cons_of_not_fails hpass]
    exact (hk a rfl).error_iff f

theorem bind {x : Except Failure α} {k : α → Except Failure String} {input : Input}
    (hmem : input ∈ command.inputs) (hx : ∀ f, x = .error f ↔ input.Fails text f)
    (hk : ∀ a, x = .ok a → Refines text command steps (pure (k a))) :
    Refines text command (input.Fails text :: steps) (pure (x >>= k)) := by
  rw [← Draw.after_pure]
  exact after hmem hx hk

/-- The call is the last step. Only a check returns what is no result. -/
theorem of_calls {d : Draw (Except Failure String)} (hc : command.Calls text c)
    (hrun : d = shown c <$> c.run)
    (hnone : ∀ out, c.Returns out → layout? c out = none → out = .verdict false)
    (hverdict : layout? c (.verdict false) = none) :
    Refines text command [command.CallFails text] d := by
  subst hrun
  refine ⟨fun c' hc' => by rw [hc.unique hc'], fun hno => absurd ⟨c, hc⟩ hno, fun output => ?_,
    fun f => ?_⟩
  · rw [Draw.yields_map]
    simp only [shown_eq_ok_iff]
    constructor
    · rintro ⟨_, hx, out, rfl, hlayout⟩
      exact ⟨c, hc, out, hx, hlayout⟩
    · rintro ⟨c', hc', out, hout, hlayout⟩
      obtain rfl := hc.unique hc'
      exact ⟨_, hout, out, rfl, hlayout⟩
  · rw [firstFails_singleton_iff, Draw.yields_map]
    simp only [shown_eq_error_iff]
    constructor
    · rintro ⟨_, hx, ⟨e, rfl, rfl⟩ | ⟨out, rfl, hlayout, rfl⟩⟩
      · exact ⟨c, hc, .inl ⟨e, hx, rfl⟩⟩
      · obtain rfl := hnone out hx hlayout
        exact ⟨c, hc, .inr ⟨hx, rfl⟩⟩
    · rintro ⟨c', hc', hreports⟩
      obtain rfl := hc.unique hc'
      obtain ⟨e, he, rfl⟩ | ⟨hfalse, rfl⟩ := hreports
      · exact ⟨_, he, .inl ⟨e, rfl, rfl⟩⟩
      · exact ⟨_, hfalse, .inr ⟨_, rfl, hverdict, rfl⟩⟩

theorem layout?_verdict_false (c : Call) : layout? c (.verdict false) = none := by
  cases c <;> rfl

/-- A call of an operation that returns something to show. -/
theorem call {d : Draw (Except Error α)} {g : α → Output} {p : α → String}
    (hc : command.Calls text c) (hrun : c.run = (·.map g) <$> d)
    (hlayout : ∀ a, layout? c (g a) = some (p a)) :
    Refines text command [command.CallFails text] ((fun x => p <$> lift x) <$> d) := by
  refine of_calls hc ?_ (fun out hout hnone => ?_) (layout?_verdict_false c)
  · rw [hrun, Draw.map_map]
    congr 1
    funext x
    cases x with
    | error e => rfl
    | ok a =>
      change _ = (layout? c (g a)).elim _ _
      rw [hlayout]
      rfl
  · rw [Call.Returns, hrun, Call.yields_map_ok_iff] at hout
    obtain ⟨a, -, rfl⟩ := hout
    cases (hlayout a).symm.trans hnone

theorem call_pure {x : Except Error α} {g : α → Output} {p : α → String}
    (hc : command.Calls text c) (hrun : c.run = pure (x.map g))
    (hlayout : ∀ a, layout? c (g a) = some (p a)) :
    Refines text command [command.CallFails text] (pure (p <$> lift x)) :=
  call (d := pure x) hc hrun hlayout

end Refines

/-! ### The six commands -/

section Commands
variable {data key signature vector ciphertext : String}

theorem refines_hash {function : HashFunction} :
    Refines text (.hash function data) (Command.steps text (.hash function data))
      (pure (decodeData text data >>= hashData function)) :=
  .bind (by simp [Command.inputs]) (fun _ => decodeData_eq_error_iff) fun _ hdata =>
    .call_pure (.hash (decodeData_eq_ok_iff.1 hdata)) rfl fun _ => rfl

theorem refines_derive {purpose : String} :
    Refines text (.derive key purpose) (Command.steps text (.derive key purpose))
      (pure (deriveKey key purpose)) := by
  refine .bind (by simp [Command.inputs]) (fun _ => decodeSecretKey_eq_error_iff)
    fun master hkey => ?_
  simp only [bind_pure_comp]
  exact .call_pure (.derive (decodeSecretKey_eq_ok_iff.1 hkey)) rfl fun _ => rfl

theorem run_encrypt {scheme : EncryptionScheme} :
    (Command.encrypt key scheme (some vector) data).run text =
      pure (decodeData text data >>= fun plaintext => decodeHex "iv" vector >>=
        encryptWith key scheme plaintext) := by
  have hvector : vectorFor scheme (some vector) = pure (decodeHex "iv" vector) := rfl
  rw [Command.run, hvector]
  -- only the order of the steps matters here: the steps themselves must not be unfolded
  generalize encryptWith key scheme = finish
  generalize decodeHex "iv" vector = iv
  cases decodeData text data with
  | error f => rfl
  | ok plaintext => rfl

theorem refines_encrypt {scheme : EncryptionScheme} :
    Refines text (.encrypt key scheme (some vector) data)
      (Command.steps text (.encrypt key scheme (some vector) data))
      (pure (decodeData text data >>= fun plaintext => decodeHex "iv" vector >>=
        encryptWith key scheme plaintext)) := by
  refine .bind (by simp [Command.inputs]) (fun _ => decodeData_eq_error_iff)
    fun plaintext hdata => ?_
  refine .bind (by simp [Command.inputs]) (fun _ => decodeHex_eq_error_iff) fun iv hvector => ?_
  refine .bind (by simp [Command.inputs]) (fun _ => decodeSecretKey_eq_error_iff)
    fun master hkey => ?_
  simp only [bind_pure_comp]
  exact .call_pure (.encrypt (decodeData_eq_ok_iff.1 hdata) (decodeHex_eq_ok_iff.1 hvector)
    (decodeSecretKey_eq_ok_iff.1 hkey)) rfl fun _ => rfl

theorem refines_decrypt {scheme : EncryptionScheme} :
    Refines text (.decrypt key scheme vector ciphertext)
      (Command.steps text (.decrypt key scheme vector ciphertext))
      (pure (decryptWith key scheme vector ciphertext)) := by
  refine .bind (by simp [Command.inputs]) (fun _ => decodeSecretKey_eq_error_iff)
    fun master hkey => ?_
  refine .bind (by simp [Command.inputs]) (fun _ => decodeHex_eq_error_iff) fun iv hvector => ?_
  refine .bind (by simp [Command.inputs]) (fun _ => decodeHex_eq_error_iff)
    fun blocks hciphertext => ?_
  exact .call_pure (.decrypt (decodeSecretKey_eq_ok_iff.1 hkey) (decodeHex_eq_ok_iff.1 hvector)
    (decodeHex_eq_ok_iff.1 hciphertext)) rfl fun _ => rfl

theorem refines_sign {scheme : SignatureScheme} :
    Refines text (.sign scheme key data) (Command.steps text (.sign scheme key data))
      (Draw.after (decodeData text data) (signData scheme key)) := by
  refine .after (by simp [Command.inputs]) (fun _ => decodeData_eq_error_iff)
    fun message hdata => ?_
  rw [signData_eq]
  refine .after (by simp [Command.inputs]) (fun _ => decodeKey_eq_error_iff) fun K hkey => ?_
  exact .call (.sign (decodeData_eq_ok_iff.1 hdata) (decodeKey_eq_ok_iff.1 hkey)) rfl fun _ => rfl

/-- A check that does not accept is the only call that returns and is yet no success. -/
theorem shown_verify {scheme : SignatureScheme} {K : Key} {s message : Bytes} (valid : Bool) :
    shown (.verify scheme K s message) (.ok (.verdict valid)) =
      if valid then .ok (line "valid") else .error { message := "Signature is not valid" } := by
  cases valid <;> rfl

theorem refines_verify {scheme : SignatureScheme} :
    Refines text (.verify scheme key signature data)
      (Command.steps text (.verify scheme key signature data))
      (pure (decodeData text data >>= verifyData scheme key signature)) := by
  refine .bind (by simp [Command.inputs]) (fun _ => decodeData_eq_error_iff)
    fun message hdata => ?_
  rw [verifyData_eq]
  refine .bind (by simp [Command.inputs]) (fun _ => decodeHex_eq_error_iff) fun s hsignature => ?_
  refine .bind (by simp [Command.inputs]) (fun _ => decodeKey_eq_error_iff) fun K hkey => ?_
  refine .of_calls (.verify (decodeData_eq_ok_iff.1 hdata) (decodeHex_eq_ok_iff.1 hsignature)
    (decodeKey_eq_ok_iff.1 hkey)) ?_ (fun out hout hnone => ?_) rfl
  · rw [Call.run, Draw.map_pure, shown_verify]
    rfl
  · obtain rfl := Except.ok.inj (Draw.yields_pure.1 hout)
    cases hvalid : verify scheme K s message with
    | true =>
      rw [hvalid] at hnone
      cases hnone
    | false => rfl

/-- **A command that decodes inputs and draws no vector** is a computation that shows what the
command asks for. -/
theorem Command.refines_run (text : Bool) (h : command.inputs ≠ []) :
    Refines text command (command.steps text) (command.run text) := by
  cases command with
  | hash function data => exact refines_hash
  | derive key purpose => exact refines_derive
  | encrypt key scheme vector data =>
    cases vector with
    | none => exact absurd rfl h
    | some vector =>
      rw [run_encrypt]
      exact refines_encrypt
  | decrypt key scheme vector ciphertext => exact refines_decrypt
  | sign scheme key data => exact refines_sign
  | verify scheme key signature data => exact refines_verify
  | random | keygen | purposes => exact absurd rfl h

end Commands

/-! ### The program -/

/-- The settings of the two commands with a cipher. -/
theorem set_cipher (key vector : String) (scheme : EncryptionScheme) :
    [(OptionName.key, key), (.encryption, scheme.name), (.vector, vector)].foldlM
      (fun s x => Settings.set? s x.1 x.2) {} =
        some { key := key, encryption := scheme, vector := vector } := by
  cases scheme <;> rfl

/-- Every such command can be asked for, whatever its inputs are. -/
theorem Command.exists_readProgram (text : Bool) (h : command.inputs ≠ []) :
    ∃ arguments, readProgram none false arguments = .ok (text, command) := by
  cases command with
  | hash function data =>
    have hset : [(OptionName.algorithm, function.name)].foldlM
        (fun s x => Settings.set? s x.1 x.2) {} = some { algorithm := function } := by
      cases function <;> rfl
    exact ⟨_, Subcommand.hash.read_write (by simp [Subcommand.options]) text (some data) hset rfl
      rfl rfl⟩
  | derive key purpose =>
    have hset : [(OptionName.key, key), (.purpose, purpose)].foldlM
        (fun s x => Settings.set? s x.1 x.2) {} = some { key := key, purpose := purpose } := rfl
    exact ⟨_, Subcommand.derive.read_write (by simp [Subcommand.options]) text none hset rfl rfl
      rfl⟩
  | encrypt key scheme vector data =>
    cases vector with
    | none => exact absurd rfl h
    | some vector =>
      exact ⟨_, Subcommand.encrypt.read_write (by simp [Subcommand.options]) text (some data)
        (set_cipher key vector scheme) rfl rfl rfl⟩
  | decrypt key scheme vector ciphertext =>
    exact ⟨_, Subcommand.decrypt.read_write (by simp [Subcommand.options]) text (some ciphertext)
      (set_cipher key vector scheme) rfl rfl rfl⟩
  | sign scheme key data =>
    have hset : [(OptionName.scheme, scheme.name), (.key, key)].foldlM
        (fun s x => Settings.set? s x.1 x.2) {} = some { scheme := scheme, key := key } := by
      cases scheme <;> rfl
    exact ⟨_, Subcommand.sign.read_write (by simp [Subcommand.options]) text (some data) hset rfl
      rfl rfl⟩
  | verify scheme key signature data =>
    have hset : [(OptionName.scheme, scheme.name), (.key, key), (.signature, signature)].foldlM
        (fun s x => Settings.set? s x.1 x.2) {} =
          some { scheme := scheme, key := key, signature := signature } := by
      cases scheme <;> rfl
    exact ⟨_, Subcommand.verify.read_write (by simp [Subcommand.options]) text (some data) hset rfl
      rfl rfl⟩
  | random | keygen | purposes => exact absurd rfl h

theorem Command.Calls.inputs_ne_nil (h : command.Calls text c) : command.inputs ≠ [] := by
  cases h <;> exact List.cons_ne_nil _ _

/-- **A command whose call draws nothing and succeeds** has one outcome. -/
theorem runs_iff_of_calls {out : Output} {output : String} {o : Outcome}
    (hc : command.Calls text c) (hrun : c.run = pure (.ok out))
    (hlayout : layout? c out = some output) : Runs text command o ↔ o = ⟨0, output, ""⟩ := by
  have hcommand := (Command.refines_run text hc.inputs_ne_nil).run_eq c hc
  rw [hrun, Draw.map_pure, shown_eq_ok_iff.2 ⟨out, rfl, hlayout⟩] at hcommand
  exact runs_iff_of_run_eq (Command.exists_readProgram text hc.inputs_ne_nil) hcommand

/-- **The program refines the library, and shows all or nothing.** Let the arguments be read as a
command that decodes inputs and draws no vector. If all inputs decode, the program draws what the
call draws, and its outcome is that of the call, with the result in the layout of the call; if one
does not, it draws nothing. So it exits with 0 exactly if all inputs decode and the call that they
make succeeds, and then it writes the result and nothing else. Otherwise it exits with 1, writes
nothing to the standard output, and reports the failure of the first step that fails. -/
theorem program_refines_library {environmentKey : Option String} {arguments : List String}
    {text : Bool} {command : Command}
    (hread : readProgram environmentKey false arguments = .ok (text, command))
    (hinputs : command.inputs ≠ []) :
    (∀ c, command.Calls text c → runProgram arguments environmentKey =
      (fun x => Outcome.ofResult (shown c x)) <$> c.run) ∧
    ((¬ ∃ c, command.Calls text c) → ∃ f, FirstFails (command.steps text) f ∧
      runProgram arguments environmentKey = pure ⟨1, "", line f.report⟩) ∧
    ∀ o, (runProgram arguments environmentKey).Yields o ↔
      (∃ c output, command.Calls text c ∧ Prints c output ∧ o = ⟨0, output, ""⟩) ∨
      ∃ f, FirstFails (command.steps text) f ∧ o = ⟨1, "", line f.report⟩ := by
  have hrefines := Command.refines_run text hinputs
  rw [runProgram_eq hread]
  refine ⟨fun c hc => ?_, fun hno => ?_, fun o => ?_⟩
  · rw [hrefines.run_eq c hc, Draw.map_map]
  · obtain ⟨x, hx⟩ := hrefines.pure_of_not_calls hno
    cases x with
    | ok output =>
      obtain ⟨c, hc, -⟩ := (hrefines.ok_iff output).1 (by rw [hx, Draw.yields_pure])
      exact absurd ⟨c, hc⟩ hno
    | error f =>
      refine ⟨f, (hrefines.error_iff f).1 (by rw [hx, Draw.yields_pure]), ?_⟩
      rw [hx]
      rfl
  · rw [Draw.yields_map]
    constructor
    · rintro ⟨output | f, hx, rfl⟩
      · exact .inr ⟨_, (hrefines.error_iff _).1 hx, rfl⟩
      · obtain ⟨c, hc, hprints⟩ := (hrefines.ok_iff _).1 hx
        exact .inl ⟨c, _, hc, hprints, rfl⟩
    · rintro (⟨c, output, hc, hprints, rfl⟩ | ⟨f, hf, rfl⟩)
      · exact ⟨_, (hrefines.ok_iff output).2 ⟨c, hc, hprints⟩, rfl⟩
      · exact ⟨_, (hrefines.error_iff f).2 hf, rfl⟩

/-- The key and the vector are both wrong: the key is reported. -/
theorem program_refines_library_two_wrong :
    readProgram none false ["decrypt", "--key", "0", "--iv", "zz", "00"] =
      .ok (false, .decrypt "0" .aes256Cbc "zz" "00") ∧
    (Command.decrypt "0" .aes256Cbc "zz" "00").inputs ≠ [] ∧
    runProgram ["decrypt", "--key", "0", "--iv", "zz", "00"] none =
      pure ⟨1, "",
        line "Error: key is not valid hex\n\nCaused by:\n    Odd number of digits"⟩ := by
  have hread : readProgram none false ["decrypt", "--key", "0", "--iv", "zz", "00"] =
      .ok (false, .decrypt "0" .aes256Cbc "zz" "00") := rfl
  have hinputs : (Command.decrypt "0" .aes256Cbc "zz" "00").inputs ≠ [] := by
    simp [Command.inputs]
  have hodd : Hex.decode (Bytes.ofString (Text.trim "0")) = .error .oddLength := rfl
  have hkey : KeyFails .secret .aes256 "0"
      { message := "key is not valid hex", cause := some "Odd number of digits" } :=
    .inl ⟨_, hodd, rfl⟩
  have hno : ¬ ∃ c, Command.Calls false (.decrypt "0" .aes256Cbc "zz" "00") c := by
    rintro ⟨c, hcalls⟩
    cases hcalls with
    | decrypt hdecodes => exact hdecodes.not_fails hkey
  obtain ⟨-, hfails, -⟩ := program_refines_library hread hinputs
  obtain ⟨f, hf, hrun⟩ := hfails hno
  have hfirst : KeyFails .secret .aes256 "0" f := (firstFails_cons_of_fails hkey).1 hf
  obtain rfl := hkey.unique hfirst
  exact ⟨hread, hinputs, hrun⟩

end MessageCrypto.Cli
