import TinyKv.Config.ConfigLoader
import TinyKv.Core.CommandParser

/-!
# The command line

The arguments are read twice. `FindConfigPath` looks for the configuration file, before there
is a configuration; `ApplyCommandLineOverrides` puts all other options over it. Both loops
advance an index of their own over the arguments.

Beside its result each pass records the positions it has taken for configuration options.
-/

namespace TinyKv.CommandLine

/-! ### Reading an option -/

/-- `RequireNextValue`, with the index it advances. -/
def requireNextValue (argv : List Bytes) (idx : Nat) (option : Bytes) :
    Except Bytes (Bytes × Nat) :=
  match argv[idx + 1]? with
  | none => .error (ascii "Missing value for option:" ++ option)
  | some value =>
      if value = [] then
        .error (ascii "Empty value for option:" ++ option)
      else
        .ok (value, idx + 1)

/-- `StartsWith`. -/
def startsWith (value start : Bytes) : Bool := start.isPrefixOf value

/-- `MatchesOption`. -/
def matchesOption (argument option : Bytes) : Bool :=
  argument == option || startsWith argument (option ++ ascii "=")

/-- `ParseInlineValue`. -/
def parseInlineValue (argument option : Bytes) : Except Bytes (Option Bytes) :=
  if argument = option then
    .ok none
  else if startsWith argument (option ++ ascii "=") then
    let value := argument.drop (option ++ ascii "=").length
    if value = [] then
      .error (ascii "empty value for option " ++ option)
    else
      .ok (some value)
  else
    .ok none

/-- `ReadOptionValue`. -/
def readOptionValue (argv : List Bytes) (index : Nat) (argument option : Bytes) :
    Except Bytes (Bytes × Nat) := do
  if argument = option then
    requireNextValue argv index option
  else
    match ← parseInlineValue argument option with
    | none => throw (ascii "argument does not match option")
    | some value => pure (value, index)

/-- The number `from_chars` reads when it reads the whole text as a number. -/
def fromChars (signed : Bool) (value : Bytes) : Option Int :=
  let negative := signed && value.head? == some 45
  let digits := if negative then value.tail else value
  if digits = [] ∨ digits.all CommandParser.isDigit = false then
    none
  else
    let number := digits.foldl (fun number ch => number * 10 + ((ch.toNat : Int) - 48)) 0
    some (if negative then -number else number)

/-- `ParseInteger`, for the type with the given least and greatest value. -/
def parseInteger (least greatest : Int) (value option : Bytes) : Except Bytes Int :=
  let error := ascii "invalid integer for option " ++ option ++ ascii ": " ++ value
  match fromChars (least < 0) value with
  | none => .error error
  | some result => if least ≤ result ∧ result ≤ greatest then .ok result else .error error

/-! ### The first pass -/

/-- What one iteration of `FindConfigPath` does: the positions it takes for configuration
options, and the index and the path it goes on with. -/
def findBody (argv : List Bytes) (i : Nat) (argument : Bytes) (configPath : Option Bytes) :
    List Nat × Except Bytes (Nat × Option Bytes) :=
  let specified (read : Except Bytes (Bytes × Nat)) : Except Bytes (Nat × Option Bytes) := do
    let (value, i) ← read
    if configPath.isSome then
      throw (ascii "configuration file specified multiple times")
    else
      pure (i, some value)
  if argument = ascii "--config" ∨ argument = ascii "-c" then
    ([i], specified (requireNextValue argv i argument))
  else if matchesOption argument (ascii "--config") then
    ([i], specified (readOptionValue argv i argument (ascii "--config")))
  else
    ([], .ok (i, configPath))

/-- The loop of `FindConfigPath`; every iteration advances the index, so that the number of
arguments is fuel enough. -/
def findLoop (argv : List Bytes) : Nat → Nat → Option Bytes →
    List Nat × Except Bytes (Option Bytes)
  | 0, _, configPath => ([], .ok configPath)
  | fuel + 1, i, configPath =>
      match argv[i]? with
      | none => ([], .ok configPath)
      | some argument =>
          match findBody argv i argument configPath with
          | (positions, .error e) => (positions, .error e)
          | (positions, .ok (i, configPath)) =>
              let (more, result) := findLoop argv fuel (i + 1) configPath
              (positions ++ more, result)

/-- `FindConfigPath`, with the positions it has taken for configuration options. -/
def findConfigPath (argv : List Bytes) : List Nat × Except Bytes (Option Bytes) :=
  findLoop argv argv.length 1 none

/-! ### The second pass -/

/-- What one iteration of `ApplyCommandLineOverrides` leaves: the index, the configuration
option it has skipped, if any, with its position and value, and the configuration. -/
structure Applied where
  index : Nat
  skipped : List (Nat × Bytes)
  config : AppConfig

/-- A branch that skips a configuration option. -/
def skipOption (i : Nat) (config : AppConfig) (read : Except Bytes (Bytes × Nat)) :
    Except Bytes Applied := do
  let (value, index) ← read
  pure ⟨index, [(i, value)], config⟩

/-- A branch that reads the value of an option and puts it into the configuration. -/
def overrideOption (argv : List Bytes) (i : Nat) (argument option : Bytes)
    (set : Bytes → Except Bytes AppConfig) : Except Bytes Applied := do
  let (value, index) ← readOptionValue argv i argument option
  let config ← set value
  pure ⟨index, [], config⟩

/-- The branch for `--sub-reactors`; zero stands for `Auto`. -/
def setSubReactors (hardwareConcurrency : Nat) (config : AppConfig) (value : Bytes) :
    Except Bytes AppConfig := do
  let count ← parseInteger 0 18446744073709551615 value (ascii "--sub-reactors")
  let subReactorCount :=
    if count = 0 then ConfigLoader.autoSubReactors hardwareConcurrency else count.toNat
  pure { config with reactor := { config.reactor with subReactorCount } }

/-- One iteration of `ApplyCommandLineOverrides`. -/
def applyBody (hardwareConcurrency : Nat) (argv : List Bytes) (i : Nat) (argument : Bytes)
    (config : AppConfig) : Except Bytes Applied :=
  if argument = ascii "--config" ∨ argument = ascii "-c" then
    skipOption i config (requireNextValue argv i argument)
  else if matchesOption argument (ascii "--config") then
    skipOption i config (readOptionValue argv i argument (ascii "--config"))
  else if matchesOption argument (ascii "--host") then
    overrideOption argv i argument (ascii "--host") fun value =>
      .ok { config with host := value }
  else if matchesOption argument (ascii "--port") then
    overrideOption argv i argument (ascii "--port") fun value => do
      let port ← parseInteger (-2147483648) 2147483647 value (ascii "--port")
      pure { config with port }
  else if matchesOption argument (ascii "--poller") then
    overrideOption argv i argument (ascii "--poller") fun value => do
      let pollerBackend ← (ConfigParser.parsePollerBackend value).mapError ascii
      pure { config with reactor := { config.reactor with pollerBackend } }
  else if matchesOption argument (ascii "--sub-reactors") then
    overrideOption argv i argument (ascii "--sub-reactors")
      (setSubReactors hardwareConcurrency config)
  else if matchesOption argument (ascii "--log-level") then
    overrideOption argv i argument (ascii "--log-level") fun value => do
      let logLevel ← (ConfigParser.parseLogLevel value).mapError ascii
      pure { config with logLevel }
  else if argument = ascii "--help" ∨ argument = ascii "-h" then
    .ok ⟨i, [], config⟩
  else
    .error (ascii "unknown command line option: " ++ argument)

/-- The loop of `ApplyCommandLineOverrides`. -/
def applyLoop (hardwareConcurrency : Nat) (argv : List Bytes) :
    Nat → Nat → AppConfig → Except Bytes (List (Nat × Bytes) × AppConfig)
  | 0, _, config => .ok ([], config)
  | fuel + 1, i, config =>
      match argv[i]? with
      | none => .ok ([], config)
      | some argument => do
          let applied ← applyBody hardwareConcurrency argv i argument config
          let (more, config) ←
            applyLoop hardwareConcurrency argv fuel (applied.index + 1) applied.config
          pure (applied.skipped ++ more, config)

/-- `ApplyCommandLineOverrides`, with the configuration options it has skipped. -/
def applyCommandLineOverrides (hardwareConcurrency : Nat) (argv : List Bytes)
    (config : AppConfig) : Except Bytes (List (Nat × Bytes) × AppConfig) :=
  applyLoop hardwareConcurrency argv argv.length 1 config

end TinyKv.CommandLine
