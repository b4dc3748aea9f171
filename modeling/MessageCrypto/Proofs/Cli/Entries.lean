import MessageCrypto.Proofs.Cli.CommandLine
import MessageCrypto.Proofs.Signing.Reading

/-! # The entries of a command line

The arguments of a subcommand are a row of entries: an option with its value, however that is
written, an argument without a name, or the flag for text mode. Reading enters one after the other
into the settings, up to the first that stops it.

* `Entry`, `Subcommand.entries`, `Subcommand.enter`: the row, and what one entry does.
* `Subcommand.read_eq_foldlM`: reading is entering them all.
* `Subcommand.entries_append`: arguments that can be followed by any others.
* `Subcommand.foldlM_comm`, `Subcommand.foldlM_insert`: a change of the settings that every entry
  commutes with, and an entry that makes it.
* `Subcommand.runProgram_commandLine`, `Subcommand.outcome_map`: the outcome for a subcommand and its
  arguments, and for settings that are changed. -/

namespace MessageCrypto.Cli

/-- What is given at one place of a command line. -/
inductive Entry where
  | option (o : OptionName) (value : String)
  | positional (value : String)
  | text
  | stop (why : Stop)

namespace Subcommand

/-- **The entries of the arguments.** An entry stops the reading if it is a request for help or cannot
be understood; those behind it are never entered. -/
def entries (c : Subcommand) : List String → List Entry
  | [] => []
  | a :: rest =>
    match Argument.ofString a with
    | .endOfOptions => rest.map .positional
    | .word value => .positional value :: entries c rest
    | .short letter => .stop (if letter = 'h' then .help else .refused) :: entries c rest
    | .long "help" none => .stop .help :: entries c rest
    | .long "text" none => .text :: entries c rest
    | .long name value =>
      match value, c.option? name, rest with
      | some v, some o, rest => .option o v :: entries c rest
      | none, some o, v :: rest =>
        match Argument.ofString v with
        | .word v => .option o v :: entries c rest
        | _ => .stop .refused :: entries c (v :: rest)
      | _, _, rest => .stop .refused :: entries c rest

/-- The settings with one entry more. -/
def enter (c : Subcommand) (s : Settings) : Entry → Except Stop Settings
  | .option o value => orRefuse (s.set? o value)
  | .positional value => orRefuse (c.setPositional? s value)
  | .text => if s.text then .error .refused else .ok { s with text := true }
  | .stop why => .error why

theorem readPositionals_eq_foldlM (c : Subcommand) (s : Settings) (values : List String) :
    c.readPositionals s values = (values.map Entry.positional).foldlM c.enter s := by
  induction values generalizing s with
  | nil => rfl
  | cons value values ih =>
    rw [readPositionals, List.map_cons, List.foldlM_cons]
    exact congrArg (orRefuse (c.setPositional? s value) >>= ·) (funext fun t => ih t)

/-- Entering goes on behind an entry that does not stop it. -/
theorem enter_bind_read {c : Subcommand} {s : Settings} {entry : Entry} {entries : List Entry}
    {arguments : List String} (ih : ∀ s, c.read s arguments = entries.foldlM c.enter s) :
    (c.enter s entry >>= fun t => c.read t arguments) = (entry :: entries).foldlM c.enter s := by
  rw [List.foldlM_cons]
  exact congrArg (c.enter s entry >>= ·) (funext ih)

/-- **Reading is entering all entries**, one after the other. -/
theorem read_eq_foldlM (c : Subcommand) (s : Settings) (arguments : List String) :
    c.read s arguments = (c.entries arguments).foldlM c.enter s := by
  fun_induction c.entries arguments generalizing s
  case case1 => rfl
  case case2 a rest ha =>
    rw [read, ha]
    exact c.readPositionals_eq_foldlM s rest
  case case3 a rest value ha ih =>
    rw [← enter_bind_read ih, read, ha]
    rfl
  case case4 a rest letter ha ih =>
    rw [read, ha]
    rfl
  case case5 a rest ha ih =>
    rw [read, ha]
    rfl
  case case6 a rest ha ih =>
    rw [← enter_bind_read ih, enter, read, ha]
    by_cases htext : s.text
    · rw [if_pos htext]
      simp only [htext]
      rfl
    · rw [if_neg htext]
      simp only [htext]
      rfl
  -- the names of the flags are no options, so the last lines of the definition apply from here on
  case case7 a name v o rest ho hhelp htext ha ih =>
    rw [← enter_bind_read ih, read.eq_def]
    simp only [ha, ho]
    rfl
  case case8 a name o v rest ho w hv hhelp htext ha ih =>
    rw [← enter_bind_read ih, read.eq_def]
    simp only [ha, ho, hv]
    rfl
  case case9 a name o v rest ho hv hhelp htext ha ih =>
    rw [read.eq_def]
    simp only [ha, ho]
    rfl
  case case10 a name value hhelp htext ha rest hinline hnext ih =>
    -- neither of the lines that enter an option applies
    have hinline' (o : OptionName) (v : String) (ho : c.option? name = some o)
        (hv : value = some v) : False := hinline v o hv ho
    have hnext' (o : OptionName) (v : String) (rest' : List String) (ho : c.option? name = some o)
        (hv : value = none) (hrest : rest = v :: rest') : False := hnext o v rest' hv ho hrest
    rw [read.eq_def]
    simp only [ha]
    rfl

/-! ### Arguments that are followed by others -/

theorem ofString_eq_endOfOptions_iff {a : String} :
    Argument.ofString a = .endOfOptions ↔ a = "--" := by
  constructor
  · intro h
    unfold Argument.ofString at h
    split at h
    · next ha => exact String.toList_inj.1 ha
    · dsimp only at h
      split at h <;> cases h
    · cases h
    · cases h
  · rintro rfl
    rfl

theorem eq_of_ofString_eq_long {a name : String} (h : Argument.ofString a = .long name none) :
    a = "--" ++ name := by
  unfold Argument.ofString at h
  split at h
  · cases h
  · next rest _ ha =>
    dsimp only at h
    split at h
    · next hvalue =>
      obtain ⟨rfl, -⟩ := Argument.long.inj h
      have hname : rest.takeWhile (· != '=') = rest := by
        have := List.takeWhile_append_dropWhile (p := (· != '=')) (l := rest)
        rwa [hvalue, List.append_nil] at this
      rw [hname, ← String.toList_inj, ha]
      simp
    · cases h
  · cases h
  · cases h

theorem mem_options_of_option? {c : Subcommand} {name : String} {o : OptionName}
    (h : c.option? name = some o) : o ∈ c.options ∧ o.name = name :=
  ⟨List.mem_of_find?_eq_some h, by simpa using List.find?_some h⟩

/-- **What follows these arguments is read on its own**: they do not end the options, and no option
at their end still wants its value. -/
structure IsClosed (c : Subcommand) (arguments : List String) : Prop where
  notMem : "--" ∉ arguments
  getLast?_ne : ∀ o ∈ c.options, arguments.getLast? ≠ some ("--" ++ o.name)

theorem IsClosed.tail {c : Subcommand} {a : String} {rest : List String}
    (h : c.IsClosed (a :: rest)) : c.IsClosed rest where
  notMem := List.not_mem_of_not_mem_cons h.notMem
  getLast?_ne o ho hlast := by
    refine h.getLast?_ne o ho ?_
    rw [List.getLast?_cons, hlast]
    rfl

/-- An option that closed arguments begin with has its value. -/
theorem IsClosed.option?_eq_none {c : Subcommand} {a name : String} {value : Option String}
    {rest : List String} (h : c.IsClosed (a :: rest)) (ha : Argument.ofString a = .long name value)
    (hinline : ∀ v o, value = some v → c.option? name = some o → False)
    (hnext : ∀ o v rest', value = none → c.option? name = some o → rest = v :: rest' → False) :
    c.option? name = none := by
  refine Option.eq_none_iff_forall_ne_some.2 fun o ho => ?_
  cases value with
  | some v => exact hinline v o rfl ho
  | none =>
    cases rest with
    | cons v rest => exact hnext o v rest rfl ho rfl
    | nil =>
      obtain ⟨hmem, rfl⟩ := mem_options_of_option? ho
      exact h.getLast?_ne o hmem (congrArg some (eq_of_ofString_eq_long ha))

theorem entries_append {c : Subcommand} {before : List String} (h : c.IsClosed before)
    (rest : List String) : c.entries (before ++ rest) = c.entries before ++ c.entries rest := by
  fun_induction c.entries before
  case case1 => rfl
  case case2 a before ha =>
    exact absurd (ofString_eq_endOfOptions_iff.1 ha ▸ List.mem_cons_self) h.notMem
  case case3 a before value ha ih =>
    rw [List.cons_append, entries, ha, List.cons_append, ← ih h.tail]
  case case4 a before letter ha ih =>
    rw [List.cons_append, entries, ha, List.cons_append, ← ih h.tail]
  case case5 a before ha ih =>
    rw [List.cons_append, entries, ha, List.cons_append, ← ih h.tail]
    rfl
  case case6 a before ha ih =>
    rw [List.cons_append, entries, ha, List.cons_append, ← ih h.tail]
    rfl
  case case7 a name v o before ho hhelp htext ha ih =>
    rw [List.cons_append, List.cons_append, ← ih h.tail, entries.eq_def]
    simp only [ha, ho]
  case case8 a name o v before ho w hv hhelp htext ha ih =>
    rw [List.cons_append, List.cons_append, List.cons_append, ← ih h.tail.tail, entries.eq_def]
    simp only [ha, ho, hv]
  case case9 a name o v before ho hv hhelp htext ha ih =>
    rw [List.cons_append, List.cons_append, List.cons_append, ← ih h.tail, entries.eq_def]
    simp only [ha, ho]
    rfl
  case case10 a name value hhelp htext ha before hinline hnext ih =>
    have ho := h.option?_eq_none ha hinline hnext
    rw [List.cons_append, List.cons_append, ← ih h.tail, entries.eq_def]
    simp only [ha, ho]

/-- An option with its value may stand behind closed arguments. -/
theorem entries_assign {c : Subcommand} {o : OptionName} (h : o ∈ c.options) (v : String)
    (rest : List String) : c.entries (o.assign v :: rest) = .option o v :: c.entries rest := by
  have ho := option?_name c c.mem_all o h
  rw [entries, ofString_assign]
  -- none of the names is that of the flags
  cases o <;> simp [ho]

/-! ### Where the entries come from -/

/-- The arguments that may be options: those in front of `--`. -/
def optionArguments (arguments : List String) : List String := arguments.takeWhile (· ≠ "--")

theorem optionArguments_cons {a : String} {argument : Argument} {rest : List String}
    (ha : Argument.ofString a = argument) (h : argument ≠ .endOfOptions) :
    optionArguments (a :: rest) = a :: optionArguments rest := by
  have hne : a ≠ "--" := fun heq => h (ha.symm.trans (ofString_eq_endOfOptions_iff.2 heq))
  exact List.takeWhile_cons_of_pos (decide_eq_true hne)

/-- **What an argument can give**, besides a value without a name. -/
inductive Gives (c : Subcommand) : Argument → Entry → Prop
  | option {name : String} {o : OptionName} {value : Option String} (v : String)
      (ho : c.option? name = some o) : Gives c (.long name value) (.option o v)
  | text : Gives c (.long "text" none) .text
  | help : Gives c (.long "help" none) (.stop .help)
  | shortHelp : Gives c (.short 'h') (.stop .help)
  | refused (a : Argument) : Gives c a (.stop .refused)

/-- The entry is a value without a name, or one of the arguments in front of `--` gives it. -/
def IsGiven (c : Subcommand) (arguments : List String) (entry : Entry) : Prop :=
  (∃ v, entry = .positional v) ∨ ∃ a ∈ optionArguments arguments, c.Gives (Argument.ofString a) entry

section
variable {c : Subcommand} {a : String} {argument : Argument} {rest : List String} {entry : Entry}
  (ha : Argument.ofString a = argument) (hne : argument ≠ .endOfOptions)
include ha hne

theorem IsGiven.head (h : c.Gives argument entry) : c.IsGiven (a :: rest) entry := by
  refine .inr ⟨a, ?_, ha ▸ h⟩
  rw [optionArguments_cons ha hne]
  exact List.mem_cons_self

theorem IsGiven.tail (h : c.IsGiven rest entry) : c.IsGiven (a :: rest) entry := by
  refine h.imp_right ?_
  rintro ⟨b, hb, hgives⟩
  refine ⟨b, ?_, hgives⟩
  rw [optionArguments_cons ha hne]
  exact List.mem_cons_of_mem a hb

end

theorem isGiven_of_mem_entries {c : Subcommand} {arguments : List String} {entry : Entry}
    (h : entry ∈ c.entries arguments) : c.IsGiven arguments entry := by
  fun_induction c.entries arguments
  case case1 => cases h
  case case2 a rest ha =>
    obtain ⟨v, -, rfl⟩ := List.mem_map.1 h
    exact .inl ⟨v, rfl⟩
  case case3 a rest value ha ih =>
    obtain rfl | h := List.mem_cons.1 h
    · exact .inl ⟨value, rfl⟩
    · exact (ih h).tail ha nofun
  case case4 a rest letter ha ih =>
    obtain rfl | h := List.mem_cons.1 h
    · refine .head ha nofun ?_
      by_cases hletter : letter = 'h'
      · rw [if_pos hletter, hletter]
        exact .shortHelp
      · rw [if_neg hletter]
        exact .refused _
    · exact (ih h).tail ha nofun
  case case5 a rest ha ih =>
    obtain rfl | h := List.mem_cons.1 h
    · exact .head ha nofun .help
    · exact (ih h).tail ha nofun
  case case6 a rest ha ih =>
    obtain rfl | h := List.mem_cons.1 h
    · exact .head ha nofun .text
    · exact (ih h).tail ha nofun
  case case7 a name v o rest ho hhelp htext ha ih =>
    obtain rfl | h := List.mem_cons.1 h
    · exact .head ha nofun (.option v ho)
    · exact (ih h).tail ha nofun
  case case8 a name o v rest ho w hv hhelp htext ha ih =>
    obtain rfl | h := List.mem_cons.1 h
    · exact .head ha nofun (.option w ho)
    · exact ((ih h).tail hv nofun).tail ha nofun
  case case9 a name o v rest ho hv hhelp htext ha ih =>
    obtain rfl | h := List.mem_cons.1 h
    · exact .head ha nofun (.refused _)
    · exact (ih h).tail ha nofun
  case case10 a name value hhelp htext ha before hinline hnext ih =>
    obtain rfl | h := List.mem_cons.1 h
    · exact .head ha nofun (.refused _)
    · exact (ih h).tail ha nofun

/-- An option among the arguments is entered, unless something stops the reading. -/
theorem exists_mem_entries {c : Subcommand} {arguments : List String} {a name : String}
    {value : Option String} {o : OptionName} (hmem : a ∈ optionArguments arguments)
    (ha : Argument.ofString a = .long name value) (ho : c.option? name = some o) :
    (∃ v, .option o v ∈ c.entries arguments) ∨ ∃ why, .stop why ∈ c.entries arguments := by
  have hflags : name ≠ "help" ∧ name ≠ "text" := by
    obtain ⟨-, rfl⟩ := mem_options_of_option? ho
    cases o <;> decide
  have hcons {entry : Entry} {entries : List Entry}
      (h : (∃ v, .option o v ∈ entries) ∨ ∃ why, .stop why ∈ entries) :
      (∃ v, .option o v ∈ entry :: entries) ∨ ∃ why, .stop why ∈ entry :: entries :=
    h.imp (fun ⟨v, h⟩ => ⟨v, List.mem_cons_of_mem _ h⟩) fun ⟨e, h⟩ => ⟨e, List.mem_cons_of_mem _ h⟩
  fun_induction c.entries arguments
  case case1 => cases hmem
  case case2 b rest hb =>
    obtain rfl := ofString_eq_endOfOptions_iff.1 hb
    cases hmem
  case case3 b rest v hb ih =>
    rw [optionArguments_cons hb nofun] at hmem
    obtain rfl | hmem := List.mem_cons.1 hmem
    · cases ha.symm.trans hb
    · exact hcons (ih hmem)
  case case4 b rest letter hb ih => exact .inr ⟨_, List.mem_cons_self⟩
  case case5 b rest hb ih => exact .inr ⟨_, List.mem_cons_self⟩
  case case6 b rest hb ih =>
    rw [optionArguments_cons hb nofun] at hmem
    obtain rfl | hmem := List.mem_cons.1 hmem
    · exact absurd (Argument.long.inj (ha.symm.trans hb)).1 hflags.2
    · exact hcons (ih hmem)
  case case7 b name' v o' rest ho' hhelp htext hb ih =>
    rw [optionArguments_cons hb nofun] at hmem
    obtain rfl | hmem := List.mem_cons.1 hmem
    · obtain ⟨rfl, -⟩ := Argument.long.inj (ha.symm.trans hb)
      obtain rfl := Option.some.inj (ho.symm.trans ho')
      exact .inl ⟨v, List.mem_cons_self⟩
    · exact hcons (ih hmem)
  case case8 b name' o' v rest ho' w hv hhelp htext hb ih =>
    rw [optionArguments_cons hb nofun, optionArguments_cons hv nofun] at hmem
    obtain rfl | hmem := List.mem_cons.1 hmem
    · obtain ⟨rfl, -⟩ := Argument.long.inj (ha.symm.trans hb)
      obtain rfl := Option.some.inj (ho.symm.trans ho')
      exact .inl ⟨w, List.mem_cons_self⟩
    · obtain rfl | hmem := List.mem_cons.1 hmem
      · cases ha.symm.trans hv
      · exact hcons (ih hmem)
  case case9 b name' o' v rest ho' hv hhelp htext hb ih => exact .inr ⟨_, List.mem_cons_self⟩
  case case10 b name' value' hhelp htext hb rest hinline hnext ih =>
    exact .inr ⟨_, List.mem_cons_self⟩

/-! ### What entering keeps -/

/-- Nothing is entered behind an entry that stops. -/
theorem foldlM_ne_ok_of_stop {c : Subcommand} {s t : Settings} {entries : List Entry} {why : Stop}
    (h : .stop why ∈ entries) : entries.foldlM c.enter s ≠ .ok t := by
  induction entries generalizing s with
  | nil => cases h
  | cons entry entries ih =>
    rw [List.foldlM_cons]
    intro hok
    obtain ⟨u, hu, hrest⟩ := bind_eq_ok_iff.1 hok
    obtain rfl | h := List.mem_cons.1 h
    · cases hu
    · exact ih h hrest

/-- **A change of the settings commutes with reading** if every entry commutes with it, under a
condition that the entries keep. -/
theorem foldlM_comm {c : Subcommand} {g : Settings → Settings} {P : Settings → Prop}
    {entries : List Entry}
    (hstep : ∀ entry ∈ entries, ∀ s, P s → c.enter (g s) entry = g <$> c.enter s entry)
    (hkeep : ∀ entry ∈ entries, ∀ s t, P s → c.enter s entry = .ok t → P t) {s : Settings}
    (hs : P s) : entries.foldlM c.enter (g s) = g <$> entries.foldlM c.enter s := by
  induction entries generalizing s with
  | nil => rfl
  | cons entry entries ih =>
    rw [List.foldlM_cons, List.foldlM_cons, hstep entry List.mem_cons_self s hs]
    cases ht : c.enter s entry with
    | error why => rfl
    | ok t =>
      exact ih (fun e he => hstep e (List.mem_cons_of_mem _ he))
        (fun e he => hkeep e (List.mem_cons_of_mem _ he)) (hkeep entry List.mem_cons_self s t hs ht)

/-- An entry that only changes the settings may be entered at any place, if those behind it commute
with the change. -/
theorem foldlM_insert {c : Subcommand} {g : Settings → Settings} {s : Settings} {entry : Entry}
    {before after : List Entry}
    (hentry : ∀ t, before.foldlM c.enter s = .ok t → c.enter t entry = .ok (g t))
    (hafter : ∀ t, after.foldlM c.enter (g t) = g <$> after.foldlM c.enter t) :
    (before ++ entry :: after).foldlM c.enter s = g <$> (before ++ after).foldlM c.enter s := by
  rw [List.foldlM_append, List.foldlM_append]
  cases ht : before.foldlM c.enter s with
  | error why => rfl
  | ok t =>
    change (entry :: after).foldlM c.enter t = g <$> after.foldlM c.enter t
    rw [List.foldlM_cons, hentry t ht]
    exact hafter t

/-- What a change of the result leaves as it is comes out changed already. -/
theorem eq_of_eq_map {α : Type} {x : Except Stop α} {g : α → α} {a : α} (h : x = g <$> x)
    (ha : x = .ok a) : g a = a := by
  rw [ha] at h
  exact (Except.ok.inj h).symm

theorem orRefuse_map {α β : Type} (f : α → β) (x : Option α) :
    orRefuse (x.map f) = f <$> orRefuse x := by
  cases x <;> rfl

theorem orRefuse_eq_error_iff {α : Type} {x : Option α} {why : Stop} :
    orRefuse x = .error why ↔ x = none ∧ why = .refused := by
  cases x <;> simp [orRefuse, eq_comm]

/-- Reading ends early with the entry that stops it, or because an entry is refused. -/
theorem eq_refused_or_of_foldlM {c : Subcommand} {s : Settings} {entries : List Entry} {why : Stop}
    (h : entries.foldlM c.enter s = .error why) : why = .refused ∨ .stop why ∈ entries := by
  induction entries generalizing s with
  | nil => cases h
  | cons entry entries ih =>
    rw [List.foldlM_cons] at h
    obtain h | ⟨t, -, h⟩ := bind_eq_error_iff.1 h
    · cases entry with
      | option o v => exact .inl (orRefuse_eq_error_iff.1 h).2
      | positional v => exact .inl (orRefuse_eq_error_iff.1 h).2
      | text =>
        rw [enter] at h
        split at h
        · exact .inl (Except.error.inj h).symm
        · cases h
      | stop why' => exact .inr (Except.error.inj h ▸ List.mem_cons_self)
    · exact (ih h).imp_right (List.mem_cons_of_mem _)

/-! ### Outcomes -/

/-- A command line: the mode, the subcommand, and its arguments as they are. -/
def commandLine (c : Subcommand) (text : Bool) (arguments : List String) : List String :=
  (if text then ["--text"] else []) ++ c.name :: arguments

/-- The outcome for what was read of the arguments. -/
def outcome (c : Subcommand) (text : Bool) (environmentKey : Option String) :
    Except Stop Settings → Draw Outcome
  | .error stop => pure (.ofStop stop)
  | .ok s => (c.command? s environmentKey).elim (pure (.ofStop .refused)) fun command =>
    Outcome.ofResult <$> command.run (text || s.text)

theorem outcome_ok (c : Subcommand) (text : Bool) (environmentKey : Option String) (s : Settings) :
    c.outcome text environmentKey (.ok s) =
      (c.command? s environmentKey).elim (pure (.ofStop .refused)) fun command =>
        Outcome.ofResult <$> command.run (text || s.text) := rfl

section
variable {c : Subcommand} {text text' : Bool} {environmentKey other : Option String}
  {x : Except Stop Settings}

/-- What stops the reading is shown in one way. -/
theorem outcome_congr (h : ∀ s, x = .ok s →
    c.outcome text environmentKey (.ok s) = c.outcome text' other (.ok s)) :
    c.outcome text environmentKey x = c.outcome text' other x := by
  cases x with
  | error why => rfl
  | ok s => exact h s rfl

/-- The same for settings that are changed behind the reading. -/
theorem outcome_map {g : Settings → Settings} (h : ∀ s, x = .ok s →
    c.outcome text environmentKey (.ok (g s)) = c.outcome text' other (.ok s)) :
    c.outcome text environmentKey (g <$> x) = c.outcome text' other x := by
  cases x with
  | error why => rfl
  | ok s => exact h s rfl

end

theorem runProgram_of_error {environmentKey : Option String} {arguments : List String} {stop : Stop}
    (h : readProgram environmentKey false arguments = .error stop) :
    runProgram arguments environmentKey = pure (.ofStop stop) := by
  rw [runProgram, h]

theorem runProgram_commandLine (c : Subcommand) (text : Bool) (arguments : List String)
    (environmentKey : Option String) :
    runProgram (c.commandLine text arguments) environmentKey =
      c.outcome text environmentKey (c.read {} arguments) := by
  have hread : readProgram environmentKey false (c.commandLine text arguments) = (do
      let s ← c.read {} arguments
      let command ← orRefuse (c.command? s environmentKey)
      .ok (text || s.text, command)) := by
    rw [← readProgram_name]
    cases text <;> rfl
  cases hs : c.read {} arguments with
  | error stop =>
    rw [hs] at hread
    exact runProgram_of_error hread
  | ok s =>
    rw [hs] at hread
    change _ = orRefuse (c.command? s environmentKey) >>= fun command =>
      .ok (text || s.text, command) at hread
    rw [outcome]
    cases hcommand : c.command? s environmentKey with
    | none =>
      rw [hcommand] at hread
      exact runProgram_of_error hread
    | some command =>
      rw [hcommand] at hread
      exact runProgram_eq hread

end Subcommand

end MessageCrypto.Cli
