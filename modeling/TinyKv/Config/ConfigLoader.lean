import TinyKv.Config.ConfigParser

/-!
# The configuration file

`ConfigLoader::LoadFromFile` reads the options it finds in a TOML document over the
defaults, and checks them; `Validate` is also the last check a configuration passes before
the server is constructed from it.

The TOML library is a parameter: how it reads a file, and what it makes of a node.
-/

namespace TinyKv

/-- `AppConfig`. -/
structure AppConfig where
  host : Bytes := ascii "0.0.0.0"
  port : Int := 7777
  network : NetworkOptions := {}
  reactor : ReactorOptions := {}
  shutdown : ShutdownOptions := {}
  sweepInterval : Int := 5000
  logLevel : LogLevel := .info
deriving DecidableEq, Repr

/-- What the loader uses of the TOML library: `parse_file`, the lookup in a table, and the
typed readings of a node. -/
structure Toml where
  Table : Type
  Node : Type
  parseFile : Bytes → Except String Table
  get : Table → String → Option Node
  asTable : Node → Option Table
  valueString : Node → Option Bytes
  valueInteger : Node → Option Int64

namespace ConfigLoader

/-- `Validate`. -/
def validate (config : AppConfig) : Except String Unit := do
  if config.host = [] then
    throw "server.host must not be empty"
  if config.port < 1 ∨ config.port > 65535 then
    throw "port must be between 1 and 65535"
  config.network.check
  if config.reactor.subReactorCount > 16 then
    throw "sub_reactors must be between 0 and 16"
  if config.shutdown.gracefulTimeout ≤ 0 then
    throw "shutdown.graceful_timeout_ms must be greater than zero"
  if config.sweepInterval < 0 then
    throw "ttl.sweep_interval_ms must not be negative"

/-! ### Reading the document -/

section Reading

variable (toml : Toml)

/-- `FindTable`. -/
def findTable (root : toml.Table) (name : String) : Except String (Option toml.Table) :=
  match toml.get root name with
  | none => .ok none
  | some node =>
      match toml.asTable node with
      | none => .error ("configuration section [" ++ name ++ "] must be a table")
      | some table => .ok (some table)

/-- `FindNode`. -/
def findNode (root : toml.Table) (name key : String) : Except String (Option toml.Node) := do
  match ← findTable toml root name with
  | none => pure none
  | some table => pure (toml.get table key)

/-- `ReadString`. -/
def readString (root : toml.Table) (name key : String) : Except String (Option Bytes) := do
  match ← findNode toml root name key with
  | none => pure none
  | some node =>
      match toml.valueString node with
      | none => throw ("configuration '" ++ name ++ "." ++ key ++ "' must be a string")
      | some value => pure (some value)

/-- `ReadInteger`. -/
def readInteger (root : toml.Table) (name key : String) : Except String (Option Int64) := do
  match ← findNode toml root name key with
  | none => pure none
  | some node =>
      match toml.valueInteger node with
      | none => throw ("configuration '" ++ name ++ "." ++ key ++ "' must be an integer")
      | some value => pure (some value)

/-- `ToSize`; a `size_t` has 64 bits, so that no value is too large. -/
def toSize (value : Int64) (name : String) : Except String Nat :=
  if value < 0 then
    .error ("configuration '" ++ name ++ "' must not be negative")
  else
    .ok value.toInt.toNat

/-- `ReadServerConfig`. -/
def readServerConfig (table : toml.Table) (config : AppConfig) : Except String AppConfig := do
  let config :=
    match ← readString toml table "server" "host" with
    | some value => { config with host := value }
    | none => config
  match ← readInteger toml table "server" "port" with
  | some value =>
      if value < 1 ∨ value > 65535 then
        throw "configuration 'server.port'must be between 1 and 65535"
      else
        pure { config with port := value.toInt }
  | none => pure config

/-- One of the sizes that `ReadReactorConfig` reads, which `set` puts into the options. -/
def readSize (table : toml.Table) (key : String) (set : Nat → NetworkOptions → NetworkOptions)
    (config : AppConfig) : Except String AppConfig := do
  match ← readInteger toml table "network" key with
  | some value =>
      let size ← toSize value ("network." ++ key)
      pure { config with network := set size config.network }
  | none => pure config

/-- `ReadReactorConfig`, which reads the network section. -/
def readReactorConfig (table : toml.Table) (config : AppConfig) : Except String AppConfig := do
  let config ← readSize toml table "max_read_buffer_bytes"
    (fun size o => { o with maxReadBufferBytes := size }) config
  let config ← readSize toml table "write_low_watermark_bytes"
    (fun size o => { o with writeLowWatermarkBytes := size }) config
  let config ← readSize toml table "write_high_watermark_bytes"
    (fun size o => { o with writeHighWatermarkBytes := size }) config
  let config ← readSize toml table "write_hard_limit_bytes"
    (fun size o => { o with writeHardLimitBytes := size }) config
  let config ← readSize toml table "max_write_bytes_per_event"
    (fun size o => { o with maxWriteBytesPerEvent := size }) config
  readSize toml table "max_accepts_per_event"
    (fun size o => { o with maxAcceptsPerEvent := size }) config

/-- The number of sub reactors that stands for `Auto`: half of the processors, but at least
one and at most eight. -/
def autoSubReactors (hardwareConcurrency : Nat) : Nat := max 1 (min (hardwareConcurrency / 2) 8)

/-- The backend that `ReadNetworkConfig` reads. -/
def readPollerBackend (table : toml.Table) (config : AppConfig) : Except String AppConfig := do
  match ← readString toml table "reactor" "poller" with
  | some value =>
      let pollerBackend ← ConfigParser.parsePollerBackend value
      pure { config with reactor := { config.reactor with pollerBackend } }
  | none => pure config

/-- `ReadNetworkConfig`, which reads the reactor section. -/
def readNetworkConfig (hardwareConcurrency : Nat) (table : toml.Table) (config : AppConfig) :
    Except String AppConfig := do
  let config ← readPollerBackend toml table config
  match ← readInteger toml table "reactor" "sub_reactors" with
  | some value =>
      if value < 0 ∨ value > 16 then
        throw "configuration 'reactor.sub_reactors' must be between 0 and 16"
      else
        let subReactorCount :=
          if value = 0 then autoSubReactors hardwareConcurrency else value.toInt.toNat
        pure { config with reactor := { config.reactor with subReactorCount } }
  | none => pure config

/-- `ReadShutdownConfig`. -/
def readShutdownConfig (table : toml.Table) (config : AppConfig) : Except String AppConfig := do
  match ← readInteger toml table "shutdown" "graceful_timeout_ms" with
  | some value =>
      if value ≤ 0 then
        throw "configuration 'shutdown.graceful_timeout_ms' must be greater than zero"
      else
        pure { config with shutdown := { gracefulTimeout := value.toInt } }
  | none => pure config

/-- `ReadTTLConfig`. -/
def readTTLConfig (table : toml.Table) (config : AppConfig) : Except String AppConfig := do
  match ← readInteger toml table "ttl" "sweep_interval_ms" with
  | some value =>
      if value ≤ 0 then
        throw "configuration 'ttl.sweep_interval_ms' must not be negative"
      else
        pure { config with sweepInterval := value.toInt }
  | none => pure config

/-- `ReadLogConfig`. -/
def readLogConfig (table : toml.Table) (config : AppConfig) : Except String AppConfig := do
  match ← readString toml table "logging" "level" with
  | some value =>
      let logLevel ← ConfigParser.parseLogLevel value
      pure { config with logLevel }
  | none => pure config

/-- `LoadFromFile`. -/
def loadFromFile (hardwareConcurrency : Nat) (path : Bytes) : Except String AppConfig := do
  let table ← toml.parseFile path
  let config ← readServerConfig toml table {}
  let config ← readReactorConfig toml table config
  let config ← readNetworkConfig toml hardwareConcurrency table config
  let config ← readShutdownConfig toml table config
  let config ← readTTLConfig toml table config
  let config ← readLogConfig toml table config
  validate config
  pure config

end Reading

/-! ### What is validated -/

/-- A validated configuration has accepted network options. -/
theorem accepted_of_validate {config : AppConfig} (h : validate config = .ok ()) :
    config.network.Accepted := by
  rw [← NetworkOptions.check_ok_iff]
  cases hcheck : config.network.check with
  | ok _ => rfl
  | error text =>
      exfalso
      unfold validate at h
      simp only [hcheck] at h
      split at h
      · cases h
      split at h <;> cases h

end ConfigLoader

end TinyKv
