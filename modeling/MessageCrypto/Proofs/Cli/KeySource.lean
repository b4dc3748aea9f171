import MessageCrypto.Proofs.Cli.Entries

/-! # Where the key comes from

A command that takes a key takes it from the option `--key`, and from the environment only where
that option is absent, whatever text either of them holds. What a command line asks for is the same
from either source.

* `GivesKey`, `AsksForHelp`: what stands among the options of the arguments.
* `Subcommand.read_assign_key`: the option for the key, read at any place.
* `key_option_precedes_environment`: the outcomes of the program. -/

namespace MessageCrypto.Cli

open Subcommand (optionArguments)

/-- The option for the key is among the arguments, with a value of its own or none. -/
def GivesKey (arguments : List String) : Prop :=
  ∃ a ∈ optionArguments arguments, ∃ value, Argument.ofString a = .long "key" value

/-- Help is asked for among the arguments. -/
def AsksForHelp (arguments : List String) : Prop :=
  ∃ a ∈ optionArguments arguments,
    Argument.ofString a = .long "help" none ∨ Argument.ofString a = .short 'h'

namespace Subcommand

variable {c : Subcommand} {s t : Settings} {arguments before after : List String}
  {entry : Entry} {entries : List Entry}

/-! ### Entries and the key -/

theorem ne_key_of_not_givesKey (h : ¬ GivesKey arguments) (hmem : entry ∈ c.entries arguments)
    (v : String) : entry ≠ .option .key v := by
  rintro rfl
  obtain ⟨w, hw⟩ | ⟨a, ha, hgives⟩ := isGiven_of_mem_entries hmem
  · cases hw
  · generalize hargument : Argument.ofString a = argument at hgives
    cases hgives with
    | option v ho =>
      obtain ⟨-, rfl⟩ := mem_options_of_option? ho
      exact h ⟨a, ha, _, hargument⟩

/-- No other entry looks at the key. -/
theorem enter_withKey (hne : ∀ v, entry ≠ .option .key v) (key : Option String) (s : Settings) :
    c.enter { s with key := key } entry = (fun t => { t with key := key }) <$> c.enter s entry := by
  cases entry with
  | option o v =>
    cases o with
    | key => exact absurd rfl (hne v)
    | algorithm | purpose | encryption | vector | scheme | signature =>
      simp only [enter, Settings.set?, orRefuse_map, Functor.map_map]
  | positional v =>
    cases c with
    | derive | purposes => rfl
    | hash | random | encrypt | decrypt | keygen | sign | verify =>
      simp only [enter, setPositional?, orRefuse_map, Functor.map_map]
  | text =>
    simp only [enter]
    split <;> rfl
  | stop why => rfl

theorem foldlM_withKey (hne : ∀ entry ∈ entries, ∀ v, entry ≠ .option .key v)
    (key : Option String) (s : Settings) : entries.foldlM c.enter { s with key := key } =
      (fun t => { t with key := key }) <$> entries.foldlM c.enter s :=
  foldlM_comm (P := fun _ => True) (fun entry he s _ => enter_withKey (hne entry he) key s)
    (fun _ _ _ _ _ _ => trivial) trivial

/-- Without the option the key is what it was. -/
theorem key_of_foldlM (hne : ∀ entry ∈ entries, ∀ v, entry ≠ .option .key v)
    (h : entries.foldlM c.enter s = .ok t) : t.key = s.key := by
  have ht : { t with key := s.key } = t := eq_of_eq_map (foldlM_withKey hne s.key s) h
  rw [← ht]

theorem enter_key_of_eq_none (h : s.key = none) (v : String) :
    c.enter s (.option .key v) = .ok { s with key := v } := by
  simp only [enter, Settings.set?, once, h]
  rfl

/-- With the option there is a key, or the reading has stopped. -/
theorem not_mem_of_foldlM (h : entries.foldlM c.enter s = .ok t) (ht : t.key = none) :
    s.key = none ∧ ∀ entry ∈ entries, ∀ v, entry ≠ .option .key v := by
  induction entries generalizing s with
  | nil =>
    obtain rfl := Except.ok.inj h
    exact ⟨ht, nofun⟩
  | cons entry entries ih =>
    rw [List.foldlM_cons] at h
    obtain ⟨u, hu, h⟩ := bind_eq_ok_iff.1 h
    obtain ⟨hukey, hrest⟩ := ih h
    have hne (v : String) : entry ≠ .option .key v := by
      rintro rfl
      cases hs : s.key with
      | none =>
        obtain rfl := Except.ok.inj ((enter_key_of_eq_none hs v).symm.trans hu)
        cases hukey
      | some key =>
        simp only [enter, Settings.set?, once, hs] at hu
        cases hu
    have hsingle : [entry].foldlM c.enter s = .ok u := by
      rw [List.foldlM_cons, hu]
      rfl
    have hkey : u.key = s.key := key_of_foldlM (by simpa using hne) hsingle
    exact ⟨hkey.symm.trans hukey, List.forall_mem_cons.2 ⟨hne, hrest⟩⟩

/-! ### Reading and the key -/

theorem key_eq_none_of_read (h : ¬ GivesKey arguments) (hs : c.read {} arguments = .ok s) :
    s.key = none := by
  rw [read_eq_foldlM] at hs
  exact key_of_foldlM (fun _ hmem => ne_key_of_not_givesKey h hmem) hs

theorem key_ne_none_of_read (hc : .key ∈ c.options) (h : GivesKey arguments)
    (hs : c.read {} arguments = .ok s) : s.key ≠ none := by
  intro hnone
  rw [read_eq_foldlM] at hs
  obtain ⟨a, hmem, value, ha⟩ := h
  have ho : c.option? "key" = some .key := option?_name c c.mem_all .key hc
  obtain ⟨v, hv⟩ | ⟨why, hwhy⟩ := exists_mem_entries hmem ha ho
  · exact (not_mem_of_foldlM hs hnone).2 _ hv v rfl
  · exact foldlM_ne_ok_of_stop hwhy hs

/-- **The option for the key only sets the key**, at any place behind closed arguments. -/
theorem read_assign_key (hc : .key ∈ c.options) (hbefore : c.IsClosed before)
    (h : ¬ GivesKey (before ++ after)) (key : String) :
    c.read {} (before ++ OptionName.key.assign key :: after) =
      (fun t => { t with key := some key }) <$> c.read {} (before ++ after) := by
  have hne : ∀ entry ∈ c.entries before ++ c.entries after, ∀ v, entry ≠ .option .key v :=
    fun entry hmem => ne_key_of_not_givesKey h ((entries_append hbefore after).symm ▸ hmem)
  obtain ⟨hnebefore, hneafter⟩ := List.forall_mem_append.1 hne
  rw [read_eq_foldlM, read_eq_foldlM, entries_append hbefore, entries_append hbefore,
    entries_assign hc]
  refine foldlM_insert (fun t ht => ?_) (foldlM_withKey hneafter (some key))
  exact enter_key_of_eq_none (key_of_foldlM hnebefore ht) key

/-- Arguments that cannot be read are refused, unless they ask for help. -/
theorem eq_refused_of_read {why : Stop} (h : c.read s arguments = .error why)
    (hhelp : ¬ AsksForHelp arguments) : why = .refused := by
  rw [read_eq_foldlM] at h
  obtain hrefused | hmem := eq_refused_or_of_foldlM h
  · exact hrefused
  · obtain ⟨v, hv⟩ | ⟨a, ha, hgives⟩ := isGiven_of_mem_entries hmem
    · cases hv
    · generalize hargument : Argument.ofString a = argument at hgives
      cases hgives with
      | help => exact absurd ⟨a, ha, .inl hargument⟩ hhelp
      | shortHelp => exact absurd ⟨a, ha, .inr hargument⟩ hhelp
      | refused => rfl

/-! ### The command -/

theorem command?_congr {environmentKey other : Option String}
    (h : (s.key <|> environmentKey) = (s.key <|> other)) :
    c.command? s environmentKey = c.command? s other := by
  cases c <;> simp only [command?, h]

/-- A key that is given and one from the environment make the same command. -/
theorem command?_withKey (h : s.key = none) (key : String) (environmentKey : Option String) :
    c.command? { s with key := some key } environmentKey = c.command? s (some key) := by
  cases c <;> simp only [command?, h] <;> rfl

theorem command?_eq_none (hc : .key ∈ c.options) (h : s.key = none) : c.command? s none = none := by
  cases c with
  | hash | random | keygen | purposes => simp [options] at hc
  | derive | encrypt | decrypt | sign | verify => simp [command?, h]

theorem command?_of_not_mem (hc : .key ∉ c.options) (environmentKey other : Option String) :
    c.command? s environmentKey = c.command? s other := by
  cases c with
  | hash | random | keygen | purposes => rfl
  | derive | encrypt | decrypt | sign | verify => simp [options] at hc

end Subcommand

/-! ### The program -/

/-- **The option for the key precedes the environment.** A command that takes a key, and that is
given one by the option, has the same outcome whatever the environment holds. One that is not given
a key has the outcome, with the environment's key, of the same command line with that key in the
option, at any place where an option can stand; and without either key it is refused, unless it asks
for help. No other command looks at the environment. -/
theorem key_option_precedes_environment (c : Subcommand) (text : Bool) :
    (c ∈ [.derive, .encrypt, .decrypt, .sign, .verify] →
      (∀ arguments, GivesKey arguments → ∀ environmentKey other,
        runProgram (c.commandLine text arguments) environmentKey =
          runProgram (c.commandLine text arguments) other) ∧
      (∀ before after, c.IsClosed before → ¬ GivesKey (before ++ after) → ∀ key environmentKey,
        runProgram (c.commandLine text (before ++ after)) (some key) =
          runProgram (c.commandLine text (before ++ OptionName.key.assign key :: after))
            environmentKey) ∧
      ∀ arguments, ¬ GivesKey arguments → ¬ AsksForHelp arguments →
        ∃ o, runProgram (c.commandLine text arguments) none = pure o ∧ o.exitCode = 2 ∧
          o.stdout = "") ∧
    (c ∈ [.hash, .random, .keygen, .purposes] → ∀ arguments environmentKey other,
      runProgram (c.commandLine text arguments) environmentKey =
        runProgram (c.commandLine text arguments) other) := by
  simp only [Subcommand.runProgram_commandLine]
  refine ⟨fun hc => ?_, fun hc arguments environmentKey other => ?_⟩
  · have hkey : .key ∈ c.options := by
      revert c
      decide
    refine ⟨fun arguments h environmentKey other => ?_,
      fun before after hbefore h key environmentKey => ?_, fun arguments h hhelp => ?_⟩
    · refine Subcommand.outcome_congr fun s hs => ?_
      obtain ⟨k, hk⟩ := Option.ne_none_iff_exists'.1 (Subcommand.key_ne_none_of_read hkey h hs)
      have hsame : c.command? s environmentKey = c.command? s other :=
        Subcommand.command?_congr (by rw [hk]; rfl)
      rw [Subcommand.outcome_ok, Subcommand.outcome_ok, hsame]
    · rw [Subcommand.read_assign_key hkey hbefore h]
      refine (Subcommand.outcome_map fun s hs => ?_).symm
      rw [Subcommand.outcome_ok, Subcommand.outcome_ok,
        Subcommand.command?_withKey (Subcommand.key_eq_none_of_read h hs)]
    · cases hs : c.read {} arguments with
      | error why =>
        obtain rfl := Subcommand.eq_refused_of_read hs hhelp
        exact ⟨_, rfl, rfl, rfl⟩
      | ok s =>
        have hnone := Subcommand.command?_eq_none hkey (Subcommand.key_eq_none_of_read h hs)
        rw [Subcommand.outcome, hnone]
        exact ⟨_, rfl, rfl, rfl⟩
  · have hkey : .key ∉ c.options := by
      revert c
      decide
    refine Subcommand.outcome_congr fun s _ => ?_
    rw [Subcommand.outcome_ok, Subcommand.outcome_ok,
      Subcommand.command?_of_not_mem hkey environmentKey other]

/-- A key in the option hides that of the environment. Data behind `--` that looks like the option is
no key, so the key is the environment's, even an empty one; without it the command line is refused. -/
theorem key_option_precedes_environment_sign :
    runProgram ["sign", "--sig-type=hmac-sha256", "--key=", "00"] (some "0b") =
      runProgram ["sign", "--sig-type=hmac-sha256", "--key=", "00"] none ∧
    Subcommand.sign.IsClosed ["--sig-type", "hmac-sha256"] ∧
    ¬ GivesKey ["--sig-type", "hmac-sha256", "--", "--key=0b"] ∧
    runProgram ["sign", "--sig-type", "hmac-sha256", "--", "--key=0b"] (some "") =
      runProgram ["sign", "--sig-type", "hmac-sha256", "--key=", "--", "--key=0b"] (some "0b") ∧
    (∃ o, runProgram ["sign", "--sig-type", "hmac-sha256", "--", "--key=0b"] none = pure o ∧
      o.exitCode = 2 ∧ o.stdout = "") ∧
    runProgram ["hash", "00"] (some "0b") = runProgram ["hash", "00"] none := by
  have hclosed : Subcommand.sign.IsClosed ["--sig-type", "hmac-sha256"] := ⟨by decide, by decide⟩
  have hscheme : Argument.ofString "--sig-type" = .long "sig-type" none := rfl
  have hword : Argument.ofString "hmac-sha256" = .word "hmac-sha256" := rfl
  have hoptions : optionArguments ["--sig-type", "hmac-sha256", "--", "--key=0b"] =
      ["--sig-type", "hmac-sha256"] := by decide
  have hkey : ¬ GivesKey ["--sig-type", "hmac-sha256", "--", "--key=0b"] := by
    simp [GivesKey, hoptions, hscheme, hword]
  have hhelp : ¬ AsksForHelp ["--sig-type", "hmac-sha256", "--", "--key=0b"] := by
    simp [AsksForHelp, hoptions, hscheme, hword]
  have hgiven : GivesKey ["--sig-type=hmac-sha256", "--key=", "00"] :=
    ⟨"--key=", by decide, some "", rfl⟩
  obtain ⟨hoption, henvironment, hneither⟩ :=
    (key_option_precedes_environment .sign false).1 (by decide)
  exact ⟨hoption _ hgiven _ _, hclosed, hkey, henvironment _ _ hclosed hkey _ _,
    hneither _ hkey hhelp, (key_option_precedes_environment .hash false).2 (by decide) _ _ _⟩

end MessageCrypto.Cli
