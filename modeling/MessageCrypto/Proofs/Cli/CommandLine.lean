import MessageCrypto.Cli.Run
import MessageCrypto.Proofs.Draw

/-! # Command lines

A value behind an equals sign, and data behind `--`, may be any text, so that every command with
such arguments can be written down: its options first, each with its value, then the data.

* `OptionName.assign`, `Subcommand.write`: an option with its value; a whole command line.
* `Subcommand.read_write`: a command line is read as the options and the data that it is made of.
* `Runs`: the outcomes of a command, whatever command line asks for it. -/

namespace MessageCrypto.Cli

/-- The option with a value behind an equals sign. -/
def OptionName.assign (o : OptionName) (v : String) : String := "--" ++ o.name ++ "=" ++ v

theorem ofString_assign (o : OptionName) (v : String) :
    Argument.ofString (o.assign v) = .long o.name (some v) := by
  cases o <;> simp [Argument.ofString, OptionName.assign, OptionName.name]

theorem Subcommand.mem_all (c : Subcommand) : c ∈ all := by
  cases c <;> decide

theorem Subcommand.option?_name : ∀ c ∈ all, ∀ o ∈ c.options, c.option? o.name = some o := by
  decide

theorem Subcommand.read_assign {c : Subcommand} {o : OptionName} (h : o ∈ c.options) (s : Settings)
    (v : String) (rest : List String) :
    c.read s (o.assign v :: rest) = orRefuse (s.set? o v) >>= fun s => c.read s rest := by
  have ho := option?_name c c.mem_all o h
  rw [read, ofString_assign]
  -- none of the names is that of the flags `--help` and `--text`
  cases o <;> simp [ho]

/-- The options of a command line are read one after the other. -/
theorem Subcommand.read_options {c : Subcommand} {options : List (OptionName × String)}
    (h : ∀ x ∈ options, x.1 ∈ c.options) {s s' : Settings} (rest : List String)
    (hset : options.foldlM (fun s x => s.set? x.1 x.2) s = some s') :
    c.read s (options.map (fun x => x.1.assign x.2) ++ rest) = c.read s' rest := by
  induction options generalizing s with
  | nil =>
    obtain rfl := Option.some.inj hset
    rfl
  | cons x options ih =>
    obtain ⟨hx, hoptions⟩ := List.forall_mem_cons.1 h
    rw [List.foldlM_cons] at hset
    obtain ⟨t, ht, hset⟩ := Option.bind_eq_some_iff.1 hset
    rw [List.map_cons, List.cons_append, read_assign hx, ht]
    exact ih hoptions hset

/-- The arguments that hold the data, if there is any. -/
def dataArguments (data : Option String) : List String := data.elim [] fun v => ["--", v]

theorem Subcommand.read_dataArguments (c : Subcommand) (s : Settings) (data : Option String) :
    c.read s (dataArguments data) = orRefuse (data.elim (some s) (c.setPositional? s)) := by
  cases data with
  | none => rfl
  | some v =>
    have h : Argument.ofString "--" = .endOfOptions := rfl
    simp only [dataArguments, Option.elim_some, read, h, readPositionals]
    exact bind_pure _

theorem readProgram_name (environmentKey : Option String) (text : Bool) (c : Subcommand)
    (rest : List String) : readProgram environmentKey text (c.name :: rest) = (do
      let s ← c.read {} rest
      let command ← orRefuse (c.command? s environmentKey)
      .ok (text || s.text, command)) := by
  cases c <;> rfl

/-- A whole command line: the mode, the command, its options, and its data. -/
def Subcommand.write (c : Subcommand) (text : Bool) (options : List (OptionName × String))
    (data : Option String) : List String :=
  (if text then ["--text"] else []) ++
    c.name :: (options.map (fun x => x.1.assign x.2) ++ dataArguments data)

/-- **A command line is read as what it is made of**: the options give settings, the data joins
them, and the settings make a command. -/
theorem Subcommand.read_write (c : Subcommand) {options : List (OptionName × String)}
    (h : ∀ x ∈ options, x.1 ∈ c.options) (text : Bool) (data : Option String) {s s' : Settings}
    {command : Command} (hset : options.foldlM (fun s x => s.set? x.1 x.2) {} = some s)
    (hdata : data.elim (some s) (c.setPositional? s) = some s') (hmode : s'.text = false)
    (hcommand : c.command? s' none = some command) :
    readProgram none false (c.write text options data) = .ok (text, command) := by
  have hflag : readProgram none false (c.write text options data) = readProgram none text
      (c.name :: (options.map (fun x => x.1.assign x.2) ++ dataArguments data)) := by
    cases text <;> rfl
  rw [hflag, readProgram_name, read_options h _ hset, read_dataArguments, hdata]
  change (orRefuse (c.command? s' none) >>= fun command => .ok (text || s'.text, command)) = _
  rw [hcommand, hmode, Bool.or_false]
  rfl

/-! ### The outcomes of a command -/

section Outcomes
variable {text : Bool} {command : Command} {o : Outcome}

theorem runProgram_eq {environmentKey : Option String} {arguments : List String}
    (h : readProgram environmentKey false arguments = .ok (text, command)) :
    runProgram arguments environmentKey = Outcome.ofResult <$> command.run text := by
  rw [runProgram, h]

/-- **The outcomes of a command**: those of the program for some arguments and some environment that
are read as the command, for some random bytes. -/
def Runs (text : Bool) (command : Command) (o : Outcome) : Prop :=
  ∃ arguments environmentKey, readProgram environmentKey false arguments = .ok (text, command) ∧
    (runProgram arguments environmentKey).Yields o

theorem Runs.exists_result (h : Runs text command o) :
    ∃ x, (command.run text).Yields x ∧ Outcome.ofResult x = o := by
  obtain ⟨arguments, environmentKey, hread, ho⟩ := h
  rw [runProgram_eq hread, Draw.yields_map] at ho
  exact ho

/-- A command that succeeds has written its output, and nothing else. -/
theorem Runs.exists_output (h : Runs text command o) (h0 : o.exitCode = 0) :
    ∃ output, (command.run text).Yields (.ok output) ∧ o.stdout = output := by
  obtain ⟨x, hx, rfl⟩ := h.exists_result
  cases x with
  | ok output => exact ⟨output, hx, rfl⟩
  | error f => exact absurd h0 Nat.one_ne_zero

/-- A command that can be written down has its outcomes. -/
theorem runs_iff (h : ∃ arguments, readProgram none false arguments = .ok (text, command)) :
    Runs text command o ↔ ∃ x, (command.run text).Yields x ∧ Outcome.ofResult x = o := by
  refine ⟨Runs.exists_result, fun ho => ?_⟩
  obtain ⟨arguments, hread⟩ := h
  refine ⟨arguments, none, hread, ?_⟩
  rw [runProgram_eq hread, Draw.yields_map]
  exact ho

/-- A command that draws nothing has one outcome. -/
theorem runs_iff_of_run_eq (h : ∃ arguments, readProgram none false arguments = .ok (text, command))
    {x : Except Failure String} (hrun : command.run text = pure x) :
    Runs text command o ↔ o = Outcome.ofResult x := by
  simp only [runs_iff h, hrun, Draw.yields_pure, exists_eq_left]
  exact eq_comm

end Outcomes

end MessageCrypto.Cli
