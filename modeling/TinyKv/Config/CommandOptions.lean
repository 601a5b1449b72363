import TinyKv.Config.ConfigOptions

/-!
# The options of the command line

The accepted arguments are a sequence of options, each with its value in one of two
spellings, and they can be read as such in one way only. `ApplyCommandLineOverrides` writes
the parsed values into the configuration, one after the other.
-/

namespace TinyKv.CommandLine

/-! ### Options -/

/-- The options with a long name that take a value. -/
inductive LongOption where
  | config
  | host
  | port
  | poller
  | subReactors
  | logLevel
deriving DecidableEq, Repr

def LongOption.name : LongOption → Bytes
  | .config => ascii "--config"
  | .host => ascii "--host"
  | .port => ascii "--port"
  | .poller => ascii "--poller"
  | .subReactors => ascii "--sub-reactors"
  | .logLevel => ascii "--log-level"

/-- The value of an option. -/
abbrev Value := { value : Bytes // value ≠ [] }

/-- An option as it occurs among the arguments. -/
inductive Occurrence where
  | separate (option : LongOption) (value : Value)
  | inline (option : LongOption) (value : Value)
  | shortConfig (value : Value)
  | help
  | shortHelp

/-- The first argument of an option. -/
def Occurrence.first : Occurrence → Bytes
  | .separate option _ => option.name
  | .inline option value => option.name ++ ascii "=" ++ value
  | .shortConfig _ => ascii "-c"
  | .help => ascii "--help"
  | .shortHelp => ascii "-h"

/-- The argument after the first, if the option takes it as its value. -/
def Occurrence.next : Occurrence → List Bytes
  | .separate _ value => [value]
  | .shortConfig value => [value]
  | _ => []

/-- The arguments of an option. -/
def Occurrence.arguments (o : Occurrence) : List Bytes := o.first :: o.next

/-- The options that the arguments after the program's name spell. -/
def Spells (argv : List Bytes) (occurrences : List Occurrence) : Prop :=
  argv.drop 1 = occurrences.flatMap Occurrence.arguments

/-- The value that an occurrence gives to an option. -/
def Occurrence.valueOf (option : LongOption) : Occurrence → Option Bytes
  | .separate option' value => if option' = option then some value else none
  | .inline option' value => if option' = option then some value else none
  | _ => none

/-- The value that the last occurrence of an option gives to it. -/
def lastValue (option : LongOption) : List Occurrence → Option Bytes
  | [] => none
  | o :: rest => (lastValue option rest).or (o.valueOf option)

/-! ### Settings -/

/-- What an option sets. -/
inductive Setting where
  | nothing
  | host (value : Bytes)
  | port (value : Int)
  | pollerBackend (value : PollerOption)
  | subReactorCount (value : Nat)
  | logLevel (value : LogLevel)

def Setting.write : Setting → AppConfig → AppConfig
  | .nothing, config => config
  | .host value, config => { config with host := value }
  | .port value, config => { config with port := value }
  | .pollerBackend value, config =>
      { config with reactor := { config.reactor with pollerBackend := value } }
  | .subReactorCount value, config =>
      { config with reactor := { config.reactor with subReactorCount := value } }
  | .logLevel value, config => { config with logLevel := value }

/-- The value of `--port`. -/
def parsePort (value : Bytes) : Except Bytes Int :=
  parseInteger (-2147483648) 2147483647 value (ascii "--port")

/-- The value of `--poller`. -/
def parsePoller (value : Bytes) : Except Bytes PollerOption :=
  (ConfigParser.parsePollerBackend value).mapError ascii

/-- The value of `--sub-reactors`, with zero replaced by the automatic count. -/
def parseSubReactors (hardwareConcurrency : Nat) (value : Bytes) : Except Bytes Nat := do
  let count ← parseInteger 0 18446744073709551615 value (ascii "--sub-reactors")
  pure (if count = 0 then ConfigLoader.autoSubReactors hardwareConcurrency else count.toNat)

/-- The value of `--log-level`. -/
def parseLevel (value : Bytes) : Except Bytes LogLevel :=
  (ConfigParser.parseLogLevel value).mapError ascii

/-- What a value sets for an option. -/
def LongOption.setting (hardwareConcurrency : Nat) (value : Bytes) :
    LongOption → Except Bytes Setting
  | .config => .ok .nothing
  | .host => .ok (.host value)
  | .port => .port <$> parsePort value
  | .poller => .pollerBackend <$> parsePoller value
  | .subReactors => .subReactorCount <$> parseSubReactors hardwareConcurrency value
  | .logLevel => .logLevel <$> parseLevel value

/-- What an occurrence sets. -/
def Occurrence.setting (hardwareConcurrency : Nat) : Occurrence → Except Bytes Setting
  | .separate option value => option.setting hardwareConcurrency value
  | .inline option value => option.setting hardwareConcurrency value
  | _ => .ok .nothing

/-- The settings of a sequence of options, written in its order. -/
def writeAll (hardwareConcurrency : Nat) : List Occurrence → AppConfig → Except Bytes AppConfig
  | [], config => .ok config
  | o :: rest, config => do
      let setting ← o.setting hardwareConcurrency
      writeAll hardwareConcurrency rest (setting.write config)

/-! ### One option -/

/-- The configuration option that an occurrence makes the second pass skip. -/
def Occurrence.skipped (i : Nat) : Occurrence → List (Nat × Bytes)
  | .separate .config value => [(i, value)]
  | .inline .config value => [(i, value)]
  | .shortConfig value => [(i, value)]
  | _ => []

theorem requireNextValue_next {argv : List Bytes} {i : Nat} {value : Value}
    (h : argv[i + 1]? = some value.1) (option : Bytes) :
    requireNextValue argv i option = .ok (value.1, i + 1) := by
  simp only [requireNextValue, h, if_neg value.2]

theorem readOptionValue_separate {argv : List Bytes} {i : Nat} {value : Value}
    (h : argv[i + 1]? = some value.1) (option : Bytes) :
    readOptionValue argv i option option = .ok (value.1, i + 1) := by
  rw [readOptionValue, if_pos rfl, requireNextValue_next h]

theorem readOptionValue_inline (argv : List Bytes) (i : Nat) (option : Bytes) (value : Value) :
    readOptionValue argv i (option ++ ascii "=" ++ value) option = .ok (value.1, i) := by
  have hne : option ++ ascii "=" ++ value.1 ≠ option := by
    intro heq
    have hlength := congrArg List.length heq
    simp [ascii] at hlength
  have hstart : startsWith (option ++ ascii "=" ++ value.1) (option ++ ascii "=") = true :=
    List.isPrefixOf_iff_prefix.mpr (List.prefix_append ..)
  rw [readOptionValue, if_neg hne, parseInlineValue, if_neg hne, if_pos hstart, List.drop_left]
  simp only [if_neg value.2]
  rfl

/-- A branch that writes what the value of its option sets. -/
theorem overrideOption_of_read {hardwareConcurrency : Nat} {argv : List Bytes} {i index : Nat}
    {argument : Bytes} {option : LongOption} {value : Bytes} {config : AppConfig}
    {set : Bytes → Except Bytes AppConfig}
    (hread : readOptionValue argv i argument option.name = .ok (value, index))
    (hset : set value = (·.write config) <$> option.setting hardwareConcurrency value) :
    overrideOption argv i argument option.name set = (do
      let setting ← option.setting hardwareConcurrency value
      pure ⟨index, [], setting.write config⟩) := by
  rw [overrideOption, hread]
  change (set value >>= _) = _
  rw [hset]
  cases option.setting hardwareConcurrency value with
  | error e => rfl
  | ok setting => rfl

/-- The branch of an option, given how its value is read. -/
theorem applyBody_option (hardwareConcurrency : Nat) {argv : List Bytes} {i index : Nat}
    {argument : Bytes} {option : LongOption} {value : Bytes} (config : AppConfig)
    (hmatches : ∀ option' : LongOption,
      matchesOption argument option'.name = decide (option' = option))
    (hshort : argument ≠ ascii "-c")
    (hread : readOptionValue argv i argument option.name = .ok (value, index)) :
    applyBody hardwareConcurrency argv i argument config = (do
      let setting ← option.setting hardwareConcurrency value
      pure ⟨index, if option = .config then [(i, value)] else [], setting.write config⟩) := by
  have hconfig : matchesOption argument (ascii "--config") = decide (.config = option) :=
    hmatches .config
  have hhost : matchesOption argument (ascii "--host") = decide (.host = option) :=
    hmatches .host
  have hport : matchesOption argument (ascii "--port") = decide (.port = option) :=
    hmatches .port
  have hpoller : matchesOption argument (ascii "--poller") = decide (.poller = option) :=
    hmatches .poller
  have hcount : matchesOption argument (ascii "--sub-reactors") = decide (.subReactors = option) :=
    hmatches .subReactors
  have hlevel : matchesOption argument (ascii "--log-level") = decide (.logLevel = option) :=
    hmatches .logLevel
  by_cases hname : argument = ascii "--config"
  · subst hname
    obtain rfl : .config = option := of_decide_eq_true (hconfig.symm.trans (by decide))
    have hnext : requireNextValue argv i (ascii "--config") = .ok (value, index) := hread
    rw [applyBody, if_pos (.inl rfl), skipOption, hnext]
    rfl
  · have hseparate : ¬ (argument = ascii "--config" ∨ argument = ascii "-c") :=
      fun h => h.elim hname hshort
    rw [applyBody, if_neg hseparate, hconfig, hhost, hport, hpoller, hcount, hlevel]
    cases option with
    | config =>
        have hskip : readOptionValue argv i argument (ascii "--config") = .ok (value, index) :=
          hread
        simp only [decide_true, if_true, skipOption, hskip]
        rfl
    | host =>
        simp only [reduceCtorEq, decide_false, decide_true, Bool.false_eq_true, if_false, if_true]
        exact overrideOption_of_read hread rfl
    | port =>
        simp only [reduceCtorEq, decide_false, decide_true, Bool.false_eq_true, if_false, if_true]
        apply overrideOption_of_read hread
        simp only [LongOption.setting, parsePort]
        cases parseInteger (-2147483648) 2147483647 value (ascii "--port") with
        | error e => rfl
        | ok port => rfl
    | poller =>
        simp only [reduceCtorEq, decide_false, decide_true, Bool.false_eq_true, if_false, if_true]
        apply overrideOption_of_read hread
        simp only [LongOption.setting, parsePoller]
        cases (ConfigParser.parsePollerBackend value).mapError ascii with
        | error e => rfl
        | ok backend => rfl
    | subReactors =>
        simp only [reduceCtorEq, decide_false, decide_true, Bool.false_eq_true, if_false, if_true]
        apply overrideOption_of_read hread
        simp only [LongOption.setting, parseSubReactors, setSubReactors]
        cases parseInteger 0 18446744073709551615 value (ascii "--sub-reactors") with
        | error e => rfl
        | ok count => rfl
    | logLevel =>
        simp only [reduceCtorEq, decide_false, decide_true, Bool.false_eq_true, if_false, if_true]
        apply overrideOption_of_read hread
        simp only [LongOption.setting, parseLevel]
        cases (ConfigParser.parseLogLevel value).mapError ascii with
        | error e => rfl
        | ok level => rfl

theorem matchesOption_name (option option' : LongOption) :
    matchesOption option.name option'.name = decide (option' = option) := by
  cases option <;> cases option' <;> rfl

/-- No long name is one of the other options. -/
theorem name_ne_short (option : LongOption) :
    option.name ≠ ascii "-c" ∧ option.name ≠ ascii "--help" ∧ option.name ≠ ascii "-h" := by
  cases option <;> decide

theorem equals_not_mem_name (option : LongOption) : (61 : UInt8) ∉ option.name := by
  cases option <;> decide

theorem takeWhile_name (option : LongOption) (rest : Bytes) :
    (option.name ++ 61 :: rest).takeWhile (· != 61) = option.name := by
  rw [List.takeWhile_append_of_pos]
  · simp
  · intro byte hmem
    exact bne_iff_ne.mpr fun heq => equals_not_mem_name option (heq ▸ hmem)

/-- The name before the equals sign is the only one an argument starts with. -/
theorem matchesOption_inline (option : LongOption) (value : Bytes) (option' : LongOption) :
    matchesOption (option.name ++ ascii "=" ++ value) option'.name =
      decide (option' = option) := by
  have hne : option.name ++ ascii "=" ++ value ≠ option'.name := by
    intro heq
    apply equals_not_mem_name option'
    rw [← heq]
    simp [ascii]
  rw [matchesOption, beq_eq_false_iff_ne.mpr hne, Bool.false_or, Bool.eq_iff_iff, startsWith,
    List.isPrefixOf_iff_prefix, decide_eq_true_iff]
  constructor
  · rintro ⟨rest, hrest⟩
    have hsplit : option'.name ++ 61 :: rest = option.name ++ 61 :: value := by
      simpa [ascii] using hrest
    have hname := congrArg (List.takeWhile (· != 61)) hsplit
    rw [takeWhile_name, takeWhile_name] at hname
    revert hname
    cases option <;> cases option' <;> decide
  · rintro rfl
    exact List.prefix_append ..

theorem inline_ne_shortConfig (option : LongOption) (value : Bytes) :
    option.name ++ ascii "=" ++ value ≠ ascii "-c" := by
  intro heq
  have hplain : (61 : UInt8) ∉ ascii "-c" := by decide
  apply hplain
  rw [← heq]
  simp [ascii]

/-- One iteration of the second pass, at the first argument of an option. -/
theorem applyBody_occurrence (hardwareConcurrency : Nat) {argv : List Bytes} {i : Nat}
    (o : Occurrence) {rest : List Bytes} (h : argv.drop i = o.arguments ++ rest)
    (config : AppConfig) :
    applyBody hardwareConcurrency argv i o.first config = (do
      let setting ← o.setting hardwareConcurrency
      pure ⟨i + o.next.length, o.skipped i, setting.write config⟩) := by
  have hnext : ∀ value : Value, o.next = [value.1] → argv[i + 1]? = some value.1 := by
    intro value hvalue
    have hget := congrArg (·[1]?) h
    simpa [Occurrence.arguments, hvalue] using hget
  cases o with
  | separate option value =>
      have hread := readOptionValue_separate (hnext value rfl) option.name
      have hskipped : (Occurrence.separate option value).skipped i =
          if option = .config then [(i, value.1)] else [] := by cases option <;> rfl
      rw [hskipped]
      exact applyBody_option hardwareConcurrency config (matchesOption_name option)
        (name_ne_short option).1 hread
  | inline option value =>
      have hread := readOptionValue_inline argv i option.name value
      have hskipped : (Occurrence.inline option value).skipped i =
          if option = .config then [(i, value.1)] else [] := by cases option <;> rfl
      rw [hskipped]
      exact applyBody_option hardwareConcurrency config (matchesOption_inline option value)
        (inline_ne_shortConfig option value) hread
  | shortConfig value =>
      have hread := requireNextValue_next (hnext value rfl) (ascii "-c")
      rw [Occurrence.first, applyBody, if_pos (.inr rfl), skipOption, hread]
      rfl
  | help => rfl
  | shortHelp => rfl

/-! ### All options -/

/-- The second pass writes the settings of the options that the arguments spell. -/
theorem applyLoop_spells (hardwareConcurrency : Nat) {argv : List Bytes}
    (occurrences : List Occurrence) :
    ∀ {fuel i : Nat} {config : AppConfig}, argv.length ≤ i + fuel →
      argv.drop i = occurrences.flatMap Occurrence.arguments →
      (applyLoop hardwareConcurrency argv fuel i config).map Prod.snd =
        writeAll hardwareConcurrency occurrences config := by
  induction occurrences with
  | nil =>
      intro fuel i config hfuel h
      have hnone : argv[i]? = none := List.getElem?_eq_none (List.drop_eq_nil_iff.mp h)
      cases fuel with
      | zero => rfl
      | succ fuel => rw [applyLoop, hnone]; rfl
  | cons o rest ih =>
      intro fuel i config hfuel h
      rw [List.flatMap_cons] at h
      have hget : argv[i]? = some o.first := by
        have hhead := congrArg (·[0]?) h
        simpa [Occurrence.arguments] using hhead
      have hrest : argv.drop (i + o.next.length + 1) = rest.flatMap Occurrence.arguments := by
        have hdrop := congrArg (List.drop o.arguments.length) h
        rw [List.drop_drop, List.drop_left] at hdrop
        exact hdrop
      cases fuel with
      | zero =>
          have hnone : argv[i]? = none := List.getElem?_eq_none hfuel
          rw [hnone] at hget
          cases hget
      | succ fuel =>
          rw [applyLoop, hget]
          simp only [applyBody_occurrence hardwareConcurrency o h, writeAll]
          cases o.setting hardwareConcurrency with
          | error e => rfl
          | ok setting =>
              have hwritten := @ih fuel (i + o.next.length + 1) (setting.write config) (by omega)
                hrest
              simp only [bind, Except.bind, pure, Except.pure, ← hwritten]
              cases applyLoop hardwareConcurrency argv fuel (i + o.next.length + 1)
                  (setting.write config) with
              | error e => rfl
              | ok result => rfl

/-- The arguments from a position on begin with an option and go on after an index. -/
def Begins (argv : List Bytes) (i index : Nat) : Prop :=
  ∃ o : Occurrence, argv.drop i = o.arguments ++ argv.drop (index + 1)

theorem begins_next {argv : List Bytes} {i : Nat} {argument value : Bytes} (o : Occurrence)
    (hget : argv[i]? = some argument) (hvalue : argv[i + 1]? = some value)
    (ho : o.arguments = [argument, value]) : Begins argv i (i + 1) :=
  ⟨o, by rw [drop_of_get hget, drop_of_get hvalue, ho]; rfl⟩

theorem begins_single {argv : List Bytes} {i : Nat} {argument : Bytes} (o : Occurrence)
    (hget : argv[i]? = some argument) (ho : o.arguments = [argument]) : Begins argv i i :=
  ⟨o, by rw [drop_of_get hget, ho]; rfl⟩

theorem begins_readOptionValue {argv : List Bytes} {i index : Nat} {argument value : Bytes}
    (option : LongOption) (hget : argv[i]? = some argument)
    (h : readOptionValue argv i argument option.name = .ok (value, index)) :
    Begins argv i index := by
  obtain ⟨rfl, hnext, hvalue, rfl⟩ | ⟨rfl, hvalue, rfl⟩ := readOptionValue_ok h
  · exact begins_next (.separate option ⟨value, hvalue⟩) hget hnext rfl
  · exact begins_single (.inline option ⟨value, hvalue⟩) hget rfl

theorem begins_overrideOption {argv : List Bytes} {i : Nat} {argument : Bytes}
    {set : Bytes → Except Bytes AppConfig} {applied : Applied} (option : LongOption)
    (hget : argv[i]? = some argument)
    (h : overrideOption argv i argument option.name set = .ok applied) :
    Begins argv i applied.index := by
  obtain ⟨⟨value, index⟩, hread, h⟩ := bind_eq_ok.mp h
  obtain ⟨config, -, h⟩ := bind_eq_ok.mp h
  cases h
  exact begins_readOptionValue option hget hread

/-- Every argument that an iteration of the second pass accepts begins an option. -/
theorem begins_applyBody {hardwareConcurrency : Nat} {argv : List Bytes} {i : Nat}
    {argument : Bytes} {config : AppConfig} {applied : Applied} (hget : argv[i]? = some argument)
    (h : applyBody hardwareConcurrency argv i argument config = .ok applied) :
    Begins argv i applied.index := by
  unfold applyBody at h
  split at h
  · next hname =>
    obtain ⟨⟨value, index⟩, hread, h⟩ := bind_eq_ok.mp h
    cases h
    obtain ⟨hnext, hvalue, rfl⟩ := requireNextValue_ok hread
    obtain rfl | rfl := hname
    · exact begins_next (.separate .config ⟨value, hvalue⟩) hget hnext rfl
    · exact begins_next (.shortConfig ⟨value, hvalue⟩) hget hnext rfl
  split at h
  · obtain ⟨⟨value, index⟩, hread, h⟩ := bind_eq_ok.mp h
    cases h
    exact begins_readOptionValue .config hget hread
  split at h
  · exact begins_overrideOption .host hget h
  split at h
  · exact begins_overrideOption .port hget h
  split at h
  · exact begins_overrideOption .poller hget h
  split at h
  · exact begins_overrideOption .subReactors hget h
  split at h
  · exact begins_overrideOption .logLevel hget h
  split at h
  · next hhelp =>
    cases h
    obtain rfl | rfl := hhelp
    · exact begins_single .help hget rfl
    · exact begins_single .shortHelp hget rfl
  · cases h

/-- Accepted arguments spell a sequence of options. -/
theorem spells_of_applyLoop {hardwareConcurrency : Nat} {argv : List Bytes} {fuel i : Nat}
    {config : AppConfig} {result : List (Nat × Bytes) × AppConfig}
    (hfuel : argv.length ≤ i + fuel)
    (h : applyLoop hardwareConcurrency argv fuel i config = .ok result) :
    ∃ occurrences : List Occurrence,
      argv.drop i = occurrences.flatMap Occurrence.arguments := by
  induction fuel generalizing i config result with
  | zero => exact ⟨[], List.drop_eq_nil_iff.mpr hfuel⟩
  | succ fuel ih =>
      rw [applyLoop] at h
      cases hget : argv[i]? with
      | none => exact ⟨[], List.drop_eq_nil_iff.mpr (List.getElem?_eq_none_iff.mp hget)⟩
      | some argument =>
          rw [hget] at h
          obtain ⟨applied, hbody, h⟩ := bind_eq_ok.mp h
          obtain ⟨more, hmore, h⟩ := bind_eq_ok.mp h
          obtain ⟨o, ho⟩ := begins_applyBody hget hbody
          have hle : i ≤ applied.index := by
            have hlength := congrArg List.length ho
            have hlt := (List.getElem?_eq_some_iff.mp hget).1
            rw [List.length_append, List.length_drop, List.length_drop, Occurrence.arguments,
              List.length_cons] at hlength
            omega
          obtain ⟨rest, hrest⟩ := ih (by omega) hmore
          exact ⟨o :: rest, by rw [ho, hrest, List.flatMap_cons]⟩

/-! ### Reading the arguments one way -/

/-- What the first argument of an option begins with, and whether a value follows in it. -/
def Occurrence.key : Occurrence → Bytes × Bool
  | .separate option _ => (option.name, false)
  | .inline option _ => (option.name, true)
  | .shortConfig _ => (ascii "-c", false)
  | .help => (ascii "--help", false)
  | .shortHelp => (ascii "-h", false)

theorem key_first (o : Occurrence) :
    o.key = (o.first.takeWhile (· != 61), o.first.contains 61) := by
  cases o with
  | separate option value => cases option <;> rfl
  | inline option value =>
      have hfirst : (Occurrence.inline option value).first = option.name ++ 61 :: value.1 := by
        simp [Occurrence.first, ascii]
      rw [hfirst, takeWhile_name]
      simp [Occurrence.key]
  | shortConfig value => rfl
  | help => rfl
  | shortHelp => rfl

theorem name_injective : Function.Injective LongOption.name := by
  intro option option' h
  revert h
  cases option <;> cases option' <;> decide

/-- The arguments of an option tell it from every other one. -/
theorem arguments_append_inj {o o' : Occurrence} {rest rest' : List Bytes}
    (h : o.arguments ++ rest = o'.arguments ++ rest') : o = o' ∧ rest = rest' := by
  obtain ⟨hfirst, hnext⟩ := List.cons_eq_cons.mp h
  have hkey : o.key = o'.key := by rw [key_first, key_first, hfirst]
  obtain ⟨hname, hinline⟩ := Prod.ext_iff.mp hkey
  cases o with
  | separate option value =>
      cases o' with
      | separate option' value' =>
          obtain rfl := name_injective hname
          obtain ⟨hvalue, hrest⟩ := List.cons_eq_cons.mp hnext
          exact ⟨by rw [Subtype.ext hvalue], hrest⟩
      | inline option' value' => cases hinline
      | shortConfig value' => exact absurd hname (name_ne_short option).1
      | help => exact absurd hname (name_ne_short option).2.1
      | shortHelp => exact absurd hname (name_ne_short option).2.2
  | inline option value =>
      cases o' with
      | inline option' value' =>
          obtain rfl := name_injective hname
          exact ⟨by rw [Subtype.ext (List.append_cancel_left hfirst)], hnext⟩
      | separate option' value' => cases hinline
      | shortConfig value' => cases hinline
      | help => cases hinline
      | shortHelp => cases hinline
  | shortConfig value =>
      cases o' with
      | shortConfig value' =>
          obtain ⟨hvalue, hrest⟩ := List.cons_eq_cons.mp hnext
          exact ⟨by rw [Subtype.ext hvalue], hrest⟩
      | separate option' value' => exact absurd hname.symm (name_ne_short option').1
      | inline option' value' => cases hinline
      | help => exact absurd hname (by decide : ascii "-c" ≠ ascii "--help")
      | shortHelp => exact absurd hname (by decide : ascii "-c" ≠ ascii "-h")
  | help =>
      cases o' with
      | help => exact ⟨rfl, hnext⟩
      | separate option' value' => exact absurd hname.symm (name_ne_short option').2.1
      | inline option' value' => cases hinline
      | shortConfig value' => exact absurd hname (by decide : ascii "--help" ≠ ascii "-c")
      | shortHelp => exact absurd hname (by decide)
  | shortHelp =>
      cases o' with
      | shortHelp => exact ⟨rfl, hnext⟩
      | separate option' value' => exact absurd hname.symm (name_ne_short option').2.2
      | inline option' value' => cases hinline
      | shortConfig value' => exact absurd hname (by decide : ascii "-h" ≠ ascii "-c")
      | help => exact absurd hname (by decide)

theorem flatMap_arguments_inj {occurrences occurrences' : List Occurrence}
    (h : occurrences.flatMap Occurrence.arguments = occurrences'.flatMap Occurrence.arguments) :
    occurrences = occurrences' := by
  induction occurrences generalizing occurrences' with
  | nil =>
      cases occurrences' with
      | nil => rfl
      | cons o' rest' => cases h
  | cons o rest ih =>
      cases occurrences' with
      | nil => cases h
      | cons o' rest' =>
          obtain ⟨rfl, hrest⟩ := arguments_append_inj h
          rw [ih hrest]

end TinyKv.CommandLine
