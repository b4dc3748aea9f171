import MessageCrypto.Proofs.Cli.Entries
import MessageCrypto.Proofs.Cli.Refinement
import MessageCrypto.Proofs.Signing.Tag

/-! # Text mode

Data in text mode stands for its own bytes, so a run in text mode is the run without it on the
hexadecimal text of those bytes. Nothing else that is typed is read in another way: keys, vectors,
signatures and ciphertexts are hexadecimal in both modes.

* `Command.inHex`, `Command.run_inHex`: the same command with its data in hexadecimal.
* `Subcommand.read_positional`, `Subcommand.read_text`: the data and the flag at any place.
* `text_mode_is_hex_of_bytes`: the outcomes of the program. -/

namespace MessageCrypto.Cli

open Subcommand (optionArguments)

/-! ### Commands -/

/-- The text that is hexadecimal for the bytes of another one. -/
def hexOf (data : String) : String := Hex.encode (Bytes.ofString data)

/-- **The command with its data in hexadecimal.** -/
def Command.inHex : Command → Command
  | .hash function data => .hash function (hexOf data)
  | .encrypt key scheme vector data => .encrypt key scheme vector (hexOf data)
  | .sign scheme key data => .sign scheme key (hexOf data)
  | .verify scheme key signature data => .verify scheme key signature (hexOf data)
  | command => command

theorem decodeData_hexOf (data : String) : decodeData false (hexOf data) = decodeData true data :=
  (decodeData_eq_ok_iff.2 (dataDecodes_false_iff.2 (hexDecodes_encode _))).trans
    decodeData_true.symm

/-- Text mode is hexadecimal mode on the bytes of the data. -/
theorem Command.run_inHex (command : Command) : command.inHex.run false = command.run true := by
  cases command with
  | hash | encrypt | sign | verify => simp only [inHex, run, decodeData_hexOf]
  | random | derive | decrypt | keygen | purposes => rfl

/-! ### The place of the data and of the flag -/

/-- The flag for text mode is among the arguments. -/
def GivesText (arguments : List String) : Prop := "--text" ∈ optionArguments arguments

/-- A value without a name, behind `--` or as it is. -/
def positional (behind : Bool) (value : String) : List String :=
  if behind then ["--", value] else [value]

theorem ofString_eq_word {value : String} (h : '-' ∉ value.toList) :
    Argument.ofString value = .word value := by
  unfold Argument.ofString
  split
  · next hvalue => exact absurd (hvalue ▸ List.mem_cons_self) h
  · next hvalue => exact absurd (hvalue ▸ List.mem_cons_self) h
  · next hvalue => exact absurd (hvalue ▸ List.mem_cons_self) h
  · rfl

theorem digit_ne {k : Nat} (h : k < 16) : Hex.digit k ≠ '-' := by
  have hall : ∀ k : Fin 16, Hex.digit k ≠ '-' := by decide
  exact hall ⟨k, h⟩

/-- What is printed looks like no option. -/
theorem ofString_hexOf (data : String) : Argument.ofString (hexOf data) = .word (hexOf data) := by
  refine ofString_eq_word fun h => ?_
  obtain ⟨k, hk, hdigit⟩ := Hex.exists_digit_of_mem_encode h
  exact digit_ne hk hdigit.symm

namespace Subcommand

variable {c : Subcommand} {s t : Settings} {arguments before : List String}
  {entry : Entry} {entries : List Entry}

/-- A value without a name is the entry at its place, and what follows does not depend on it. -/
theorem exists_entries_positional (c : Subcommand) (behind : Bool) (after : List String) :
    ∃ entries, ∀ value, behind = true ∨ Argument.ofString value = .word value →
      c.entries (positional behind value ++ after) = .positional value :: entries := by
  cases behind with
  | true => exact ⟨after.map .positional, fun value _ => rfl⟩
  | false =>
    refine ⟨c.entries after, fun value h => ?_⟩
    have hword := h.resolve_left Bool.false_ne_true
    change c.entries (value :: after) = _
    rw [Subcommand.entries, hword]

theorem ne_text_of_not_givesText (h : ¬ GivesText arguments) (hmem : entry ∈ c.entries arguments) :
    entry ≠ .text := by
  rintro rfl
  obtain ⟨v, hv⟩ | ⟨a, ha, hgives⟩ := isGiven_of_mem_entries hmem
  · cases hv
  · generalize hargument : Argument.ofString a = argument at hgives
    cases hgives with
    | text =>
      obtain rfl := eq_of_ofString_eq_long hargument
      exact h ha

/-! ### The mode -/

/-- No other entry looks at the mode. -/
theorem enter_withText (hne : entry ≠ .text) (text : Bool) (s : Settings) :
    c.enter { s with text := text } entry = (fun t => { t with text := text }) <$> c.enter s entry := by
  cases entry with
  | option o v =>
    cases o <;> simp only [enter, Settings.set?, orRefuse_map, Functor.map_map]
  | positional v =>
    cases c with
    | derive | purposes => rfl
    | hash | random | encrypt | decrypt | keygen | sign | verify =>
      simp only [enter, setPositional?, orRefuse_map, Functor.map_map]
  | text => exact absurd rfl hne
  | stop why => rfl

theorem foldlM_withText (hne : ∀ entry ∈ entries, entry ≠ .text) (text : Bool) (s : Settings) :
    entries.foldlM c.enter { s with text := text } =
      (fun t => { t with text := text }) <$> entries.foldlM c.enter s :=
  foldlM_comm (P := fun _ => True) (fun entry he s _ => enter_withText (hne entry he) text s)
    (fun _ _ _ _ _ _ => trivial) trivial

theorem text_of_foldlM (hne : ∀ entry ∈ entries, entry ≠ .text)
    (h : entries.foldlM c.enter s = .ok t) : t.text = s.text := by
  have ht : { t with text := s.text } = t := eq_of_eq_map (foldlM_withText hne s.text s) h
  rw [← ht]

theorem text_of_read (h : ¬ GivesText arguments) (hs : c.read {} arguments = .ok s) :
    s.text = false := by
  rw [read_eq_foldlM] at hs
  exact text_of_foldlM (fun _ hmem => ne_text_of_not_givesText h hmem) hs

/-- **The flag only sets the mode**, at any place behind closed arguments. -/
theorem read_text {after : List String} (hbefore : c.IsClosed before)
    (h : ¬ GivesText (before ++ after)) : c.read {} (before ++ "--text" :: after) =
      (fun t => { t with text := true }) <$> c.read {} (before ++ after) := by
  have hne : ∀ entry ∈ c.entries before ++ c.entries after, entry ≠ .text :=
    fun entry hmem => ne_text_of_not_givesText h ((entries_append hbefore after).symm ▸ hmem)
  obtain ⟨hnebefore, hneafter⟩ := List.forall_mem_append.1 hne
  have hflag : c.entries ("--text" :: after) = .text :: c.entries after := rfl
  rw [read_eq_foldlM, read_eq_foldlM, entries_append hbefore, entries_append hbefore, hflag]
  refine foldlM_insert (fun t ht => ?_) (foldlM_withText hneafter true)
  have htext : t.text = false := text_of_foldlM hnebefore ht
  rw [enter, htext, if_neg Bool.false_ne_true]

/-! ### The data -/

section Data
variable (hc : c ∈ [hash, encrypt, sign, verify])
include hc

/-- There is one value without a name, which is the data. -/
theorem enter_positional (s : Settings) (value : String) : c.enter s (.positional value) =
    if s.data = none then .ok { s with data := value } else .error .refused := by
  cases hs : s.data <;> cases c with
  | hash | encrypt | sign | verify =>
    simp only [enter, setPositional?, once, hs]
    rfl
  | random | derive | decrypt | keygen | purposes => simp at hc

/-- No entry looks at data that is there already. -/
theorem enter_withData (value : String) (s : Settings) (hs : s.data ≠ none) :
    c.enter { s with data := some value } entry =
      (fun t => { t with data := some value }) <$> c.enter s entry := by
  cases entry with
  | option o v =>
    cases o <;> simp only [enter, Settings.set?, orRefuse_map, Functor.map_map]
  | positional v =>
    rw [enter_positional hc, enter_positional hc, if_neg (Option.some_ne_none value), if_neg hs]
    rfl
  | text =>
    simp only [enter]
    split <;> rfl
  | stop why => rfl

theorem data_of_enter (hs : s.data ≠ none) (h : c.enter s entry = .ok t) : t.data = s.data := by
  obtain ⟨value, hvalue⟩ := Option.ne_none_iff_exists'.1 hs
  have hsame : c.enter { s with data := some value } entry = _ := enter_withData hc value s hs
  rw [← hvalue] at hsame
  have ht : { t with data := s.data } = t := eq_of_eq_map hsame h
  rw [← ht]

theorem foldlM_withData (value : String) (hs : s.data ≠ none) :
    entries.foldlM c.enter { s with data := some value } =
      (fun t => { t with data := some value }) <$> entries.foldlM c.enter s :=
  foldlM_comm (P := fun s => s.data ≠ none) (fun _ _ => enter_withData hc value)
    (fun _ _ _ _ hs h => data_of_enter hc hs h ▸ hs) hs

/-- **Other data only changes the data**, wherever it stands. -/
theorem read_positional (hbefore : c.IsClosed before) {behind : Bool} {data other : String}
    (hdata : behind = true ∨ Argument.ofString data = .word data)
    (hother : behind = true ∨ Argument.ofString other = .word other) (after : List String) :
    c.read {} (before ++ (positional behind other ++ after)) =
      (fun t => { t with data := some other }) <$>
        c.read {} (before ++ (positional behind data ++ after)) := by
  obtain ⟨rest, hrest⟩ := c.exists_entries_positional behind after
  rw [read_eq_foldlM, read_eq_foldlM, entries_append hbefore, entries_append hbefore,
    hrest data hdata, hrest other hother, List.foldlM_append, List.foldlM_append]
  cases (c.entries before).foldlM c.enter {} with
  | error why => rfl
  | ok t =>
    change (Entry.positional other :: rest).foldlM c.enter t =
      _ <$> (Entry.positional data :: rest).foldlM c.enter t
    rw [List.foldlM_cons, List.foldlM_cons, enter_positional hc, enter_positional hc]
    split
    · exact foldlM_withData hc other (s := { t with data := some data }) (Option.some_ne_none data)
    · rfl

theorem data_of_read (hbefore : c.IsClosed before) {behind : Bool} {data : String}
    (hdata : behind = true ∨ Argument.ofString data = .word data) {after : List String}
    (h : c.read {} (before ++ (positional behind data ++ after)) = .ok s) : s.data = some data := by
  have hs : { s with data := some data } = s :=
    eq_of_eq_map (read_positional hc hbefore hdata hdata after) h
  rw [← hs]

/-- The command for other data differs in the data alone. -/
theorem command?_withData {data : String} (hs : s.data = some data)
    (environmentKey : Option String) :
    c.command? { s with data := some (hexOf data) } environmentKey =
      (c.command? s environmentKey).map Command.inHex := by
  cases c with
  | hash => simp only [command?, hs]; rfl
  | encrypt => simp only [command?, hs]; cases s.key <|> environmentKey <;> rfl
  | sign =>
    simp only [command?, hs]
    cases s.scheme <;> cases s.key <|> environmentKey <;> rfl
  | verify =>
    simp only [command?, hs]
    cases s.scheme <;> cases s.key <|> environmentKey <;> cases s.signature <;> rfl
  | random | derive | decrypt | keygen | purposes => simp at hc

end Data

/-- The other commands have no data that could be put into hexadecimal. -/
theorem inHex_of_command? (hc : c ∈ [random, derive, decrypt, keygen, purposes])
    {environmentKey : Option String} {command : Command}
    (h : c.command? s environmentKey = some command) : command.inHex = command := by
  cases c with
  | random | keygen =>
    obtain ⟨_, -, h⟩ := Option.bind_eq_some_iff.1 h
    cases h
    rfl
  | derive =>
    obtain ⟨key, -, h⟩ := Option.bind_eq_some_iff.1 h
    obtain ⟨purpose, -, h⟩ := Option.bind_eq_some_iff.1 h
    cases h
    rfl
  | decrypt =>
    obtain ⟨key, -, h⟩ := Option.bind_eq_some_iff.1 h
    obtain ⟨vector, -, h⟩ := Option.bind_eq_some_iff.1 h
    obtain ⟨ciphertext, -, h⟩ := Option.bind_eq_some_iff.1 h
    cases h
    rfl
  | purposes =>
    cases h
    rfl
  | hash | encrypt | sign | verify => simp at hc

end Subcommand

/-! ### The other inputs -/

/-- Whatever the mode, what is typed besides data is hexadecimal if the command makes a call. -/
theorem Command.Calls.hexDecodes {text : Bool} {command : Command} {c : Call}
    (h : command.Calls text c) {input : Input} (hmem : input ∈ command.inputs)
    (hrole : input.role ≠ .data) : ∃ bytes, HexDecodes input.value bytes := by
  have himported {kind : Key.Kind} {algorithm : KeyAlgorithm} {value : String} {K : Key}
      (h : KeyDecodes kind algorithm value K) : ∃ bytes, HexDecodes value bytes :=
    h.imp fun _ h => h.1
  cases h with
  | hash hdata =>
    obtain rfl := List.mem_singleton.1 hmem
    exact absurd rfl hrole
  | derive hkey =>
    obtain rfl := List.mem_singleton.1 hmem
    exact himported hkey
  | encrypt hdata hvector hkey =>
    simp only [inputs, List.mem_cons, List.not_mem_nil, or_false] at hmem
    obtain rfl | rfl | rfl := hmem
    · exact absurd rfl hrole
    · exact ⟨_, hvector⟩
    · exact himported hkey
  | decrypt hkey hvector hciphertext =>
    simp only [inputs, List.mem_cons, List.not_mem_nil, or_false] at hmem
    obtain rfl | rfl | rfl := hmem
    · exact himported hkey
    · exact ⟨_, hvector⟩
    · exact ⟨_, hciphertext⟩
  | sign hdata hkey =>
    simp only [inputs, List.mem_cons, List.not_mem_nil, or_false] at hmem
    obtain rfl | rfl := hmem
    · exact absurd rfl hrole
    · exact himported hkey
  | verify hdata hsignature hkey =>
    simp only [inputs, List.mem_cons, List.not_mem_nil, or_false] at hmem
    obtain rfl | rfl | rfl := hmem
    · exact absurd rfl hrole
    · exact ⟨_, hsignature⟩
    · exact himported hkey

/-- A command that succeeds has made its call. -/
theorem Runs.exists_calls {text : Bool} {command : Command} {o : Outcome} (h : Runs text command o)
    (h0 : o.exitCode = 0) (hinputs : command.inputs ≠ []) : ∃ c, command.Calls text c := by
  obtain ⟨output, hyields, -⟩ := h.exists_output h0
  obtain ⟨c, hc, -⟩ := ((Command.refines_run text hinputs).ok_iff output).1 hyields
  exact ⟨c, hc⟩

/-! ### The program -/

/-- **Text mode is hexadecimal mode on the bytes of the data**, and touches nothing else. For the
commands with data, every outcome in text mode is the outcome without it on the hexadecimal text of
the data's bytes, the other arguments being as they are; the data stands behind `--` or looks like no
option. The other commands have the same outcomes in both modes. The flag stands in front of the
subcommand or anywhere among the options. Keys, vectors, signatures and ciphertexts have to be
hexadecimal in both modes. -/
theorem text_mode_is_hex_of_bytes (c : Subcommand) (environmentKey : Option String) :
    (c ∈ [.hash, .encrypt, .sign, .verify] → ∀ before behind data after, c.IsClosed before →
      behind = true ∨ Argument.ofString data = .word data →
      ¬ GivesText (before ++ (positional behind data ++ after)) →
      runProgram (c.commandLine true (before ++ (positional behind data ++ after))) environmentKey =
        runProgram (c.commandLine false (before ++ (positional behind (hexOf data) ++ after)))
          environmentKey) ∧
    (c ∈ [.random, .derive, .decrypt, .keygen, .purposes] → ∀ arguments,
      runProgram (c.commandLine true arguments) environmentKey =
        runProgram (c.commandLine false arguments) environmentKey) ∧
    (∀ before after, c.IsClosed before → ¬ GivesText (before ++ after) →
      runProgram (c.commandLine false (before ++ "--text" :: after)) environmentKey =
        runProgram (c.commandLine true (before ++ after)) environmentKey) ∧
    ∀ text command o, Runs text command o → o.exitCode = 0 →
      ∀ input ∈ command.inputs, input.role ≠ .data → ∃ bytes, HexDecodes input.value bytes := by
  simp only [Subcommand.runProgram_commandLine]
  refine ⟨fun hc before behind data after hbefore hdata htext => ?_, fun hc arguments => ?_,
    fun before after hbefore htext => ?_, fun text command o ho h0 input hmem hrole => ?_⟩
  · rw [Subcommand.read_positional hc hbefore hdata (.inr (ofString_hexOf data))]
    refine (Subcommand.outcome_map fun s hs => ?_).symm
    have hstext : s.text = false := Subcommand.text_of_read htext hs
    have hsdata := Subcommand.data_of_read hc hbefore hdata hs
    rw [Subcommand.outcome_ok, Subcommand.outcome_ok, Subcommand.command?_withData hc hsdata, hstext]
    cases c.command? s environmentKey with
    | none => rw [Option.map_none, Option.elim_none, Option.elim_none]
    | some command =>
      rw [Option.map_some, Option.elim_some, Option.elim_some, Bool.true_or, Bool.or_false,
        Command.run_inHex]
  · refine Subcommand.outcome_congr fun s _ => ?_
    rw [Subcommand.outcome_ok, Subcommand.outcome_ok]
    cases hcommand : c.command? s environmentKey with
    | none => rw [Option.elim_none, Option.elim_none]
    | some command =>
      have hmode : command.run false = command.run true := by
        rw [← command.run_inHex, Subcommand.inHex_of_command? hc hcommand]
      rw [Option.elim_some, Option.elim_some, Bool.true_or, Bool.false_or]
      cases s.text with
      | true => rfl
      | false => rw [hmode]
  · rw [Subcommand.read_text hbefore htext]
    refine Subcommand.outcome_map fun s _ => ?_
    have hcommand : c.command? { s with text := true } environmentKey =
        c.command? s environmentKey := by cases c <;> rfl
    rw [Subcommand.outcome_ok, Subcommand.outcome_ok, hcommand]
    rfl
  · obtain ⟨c, hc⟩ := ho.exists_calls h0 (List.ne_nil_of_mem hmem)
    exact hc.hexDecodes hmem hrole

/-- A blank character is signed as the byte that it is, also where the flag stands among the options,
and behind `--` so is what looks like an option; to derive a key the flag is nothing. -/
theorem text_mode_is_hex_of_bytes_blank :
    Subcommand.sign.IsClosed ["--sig-type=hmac-sha256", "--key=05"] ∧
    (¬ GivesText ["--sig-type=hmac-sha256", "--key=05", " "] ∧
      runProgram ["--text", "sign", "--sig-type=hmac-sha256", "--key=05", " "] none =
        runProgram ["sign", "--sig-type=hmac-sha256", "--key=05", "20"] none) ∧
    (¬ GivesText ["--sig-type=hmac-sha256", "--key=05", "--", "--text"] ∧
      runProgram ["--text", "sign", "--sig-type=hmac-sha256", "--key=05", "--", "--text"] none =
        runProgram ["sign", "--sig-type=hmac-sha256", "--key=05", "--", "2d2d74657874"] none) ∧
    runProgram ["sign", "--sig-type=hmac-sha256", "--key=05", "--text", " "] none =
      runProgram ["--text", "sign", "--sig-type=hmac-sha256", "--key=05", " "] none ∧
    runProgram ["--text", "derive", "--key=05", "--purpose=ENC:2"] none =
      runProgram ["derive", "--key=05", "--purpose=ENC:2"] none ∧
    ∃ o, Runs true (.sign .hmacSha256 "05" " ") o ∧ o.exitCode = 0 ∧
      ∃ bytes, HexDecodes "05" bytes := by
  have hclosed : Subcommand.sign.IsClosed ["--sig-type=hmac-sha256", "--key=05"] :=
    ⟨by decide, by decide⟩
  have hblank : ¬ GivesText ["--sig-type=hmac-sha256", "--key=05", " "] := by
    rw [GivesText]
    decide
  have hflag : ¬ GivesText ["--sig-type=hmac-sha256", "--key=05", "--", "--text"] := by
    rw [GivesText]
    decide
  have hcalls : Command.Calls true (.sign .hmacSha256 "05" " ")
      (.sign .hmacSha256 (.secret ⟨[5], List.cons_ne_nil _ _⟩) (Bytes.ofString " ")) :=
    .sign (dataDecodes_true_iff.2 rfl) ⟨[5], rfl, rfl⟩
  have hrun : (Call.sign .hmacSha256 (.secret ⟨[5], List.cons_ne_nil _ _⟩)
      (Bytes.ofString " ")).run = pure (.ok (.bytes (Hmac.sign
        (SecretKey.tagKey ⟨[5], List.cons_ne_nil _ _⟩) (Bytes.ofString " ")))) := by
    rw [Call.run, sign_secret]
    rfl
  have hruns := (runs_iff_of_calls hcalls hrun rfl).2 rfl
  have hkey : (⟨.key .secret .aes256, "05"⟩ : Input) ∈
      (Command.sign .hmacSha256 "05" " ").inputs := List.mem_cons_of_mem _ List.mem_cons_self
  have hrole : Role.key .secret .aes256 ≠ .data := by rintro ⟨⟩
  obtain ⟨hdata, -, hplace, hhex⟩ := text_mode_is_hex_of_bytes .sign none
  exact ⟨hclosed, ⟨hblank, hdata (by decide) _ false " " [] hclosed (.inr rfl) hblank⟩,
    ⟨hflag, hdata (by decide) _ true "--text" [] hclosed (.inl rfl) hflag⟩,
    hplace _ [" "] hclosed hblank, (text_mode_is_hex_of_bytes .derive none).2.1 (by decide) _,
    _, hruns, rfl, hhex _ _ _ hruns rfl ⟨.key .secret .aes256, "05"⟩ hkey hrole⟩

end MessageCrypto.Cli
