import TinyKv.Config.Durations
import TinyKv.Config.Overrides

/-!
# From the configuration to the server

`main` reads the configuration file, puts the command line over it, validates the result and
constructs the server from it. `Validate` and the constructor of `TcpServer` check the same
network options, but not the same number of sub reactors.
-/

namespace TinyKv

/-- The checks in the constructor of `TcpServer`. -/
def TcpServer.checkOptions (network : NetworkOptions) (reactor : ReactorOptions) :
    Except String Unit := do
  network.check
  if reactor.subReactorCount < 1 ∨ reactor.subReactorCount > 16 then
    throw "sub_reactors must be between 1 and 16"

namespace ConfigLoader

/-- The configuration that the command line is put over: that of the file, or the defaults. -/
def baseConfig (toml : Toml) (hardwareConcurrency : Nat) : Option Bytes → Except String AppConfig
  | none => .ok {}
  | some path => loadFromFile toml hardwareConcurrency path

/-- The configuration that `main` constructs the server from. -/
def startConfig (toml : Toml) (hardwareConcurrency : Nat) (configPath : Option Bytes)
    (argv : List Bytes) : Except Bytes AppConfig := do
  let base ← (baseConfig toml hardwareConcurrency configPath).mapError ascii
  let (_, config) ← CommandLine.applyCommandLineOverrides hardwareConcurrency argv base
  (validate config).mapError ascii
  pure config

/-! ### The number of sub reactors -/

/-- The constructor accepts a valid configuration unless it has no sub reactor. -/
theorem checkOptions_ok_iff {config : AppConfig} (h : Valid config) :
    TcpServer.checkOptions config.network config.reactor = .ok () ↔
      0 < config.reactor.subReactorCount := by
  have hle := h.subReactors
  simp only [TcpServer.checkOptions, NetworkOptions.check_ok_iff.mpr h.network]
  change (if _ then _ else _) = _ ↔ _
  split
  next hcount =>
    constructor
    · nofun
    · intro hpos
      omega
  next hcount =>
    constructor
    · intro _
      omega
    · intro _
      rfl

/-- Validation alone does not ask for a sub reactor. -/
theorem valid_without_subReactors {config : AppConfig} (h : Valid config) :
    Valid { config with reactor := { config.reactor with subReactorCount := 0 } } :=
  ⟨h.host, h.port, h.network, Nat.zero_le 16, h.graceful, h.sweep⟩

theorem mapError_eq_ok {ε ε' α : Type} {x : Except ε α} {f : ε → ε'} {a : α} :
    x.mapError f = .ok a ↔ x = .ok a := by
  cases x with
  | error e => exact ⟨nofun, nofun⟩
  | ok b => simp [Except.mapError]

theorem subReactorCount_baseConfig {toml : Toml} {hardwareConcurrency : Nat}
    {configPath : Option Bytes} {config : AppConfig}
    (h : baseConfig toml hardwareConcurrency configPath = .ok config) :
    0 < config.reactor.subReactorCount := by
  cases configPath with
  | none =>
      cases h
      exact Nat.zero_lt_two
  | some path => exact (loadFromFile_ok h).2.2

theorem parseSubReactors_pos {hardwareConcurrency count : Nat} {value : Bytes}
    (h : CommandLine.parseSubReactors hardwareConcurrency value = .ok count) : 0 < count := by
  obtain ⟨number, hnumber, h⟩ := bind_eq_ok.mp h
  cases h
  split
  · exact autoSubReactors_pos hardwareConcurrency
  next hne =>
    have hle : 0 ≤ number := by
      unfold CommandLine.parseInteger at hnumber
      simp only at hnumber
      split at hnumber
      · cases hnumber
      split at hnumber
      next hrange =>
        cases hnumber
        exact hrange.1
      · cases hnumber
    omega

/-- The command line leaves a configuration with sub reactors one with sub reactors. -/
theorem subReactorCount_overridden {hardwareConcurrency : Nat} {base config : AppConfig}
    {occurrences : List CommandLine.Occurrence}
    (h : CommandLine.Overridden hardwareConcurrency base occurrences config)
    (hbase : 0 < base.reactor.subReactorCount) : 0 < config.reactor.subReactorCount := by
  have hcount := h.subReactorCount
  unfold CommandLine.Sets at hcount
  split at hcount
  · rw [hcount]
    exact hbase
  · exact parseSubReactors_pos hcount

/-- The constructor of the server accepts every configuration that `main` arrives at, whatever
it is put together from. It has between one and sixteen sub reactors, although validation
would admit none. -/
theorem constructor_accepts (toml : Toml) (hardwareConcurrency : Nat) (configPath : Option Bytes)
    (argv : List Bytes) (config : AppConfig)
    (h : startConfig toml hardwareConcurrency configPath argv = .ok config) :
    TcpServer.checkOptions config.network config.reactor = .ok () ∧
      1 ≤ config.reactor.subReactorCount ∧ config.reactor.subReactorCount ≤ 16 ∧
      validate { config with reactor := { config.reactor with subReactorCount := 0 } } =
        .ok () := by
  obtain ⟨base, hbase, h⟩ := bind_eq_ok.mp h
  obtain ⟨⟨skipped, config'⟩, happly, h⟩ := bind_eq_ok.mp h
  obtain ⟨_, hvalidate, h⟩ := bind_eq_ok.mp h
  cases h
  obtain ⟨occurrences, -, hwritten⟩ := CommandLine.exists_writeAll happly
  have hpos := subReactorCount_overridden (CommandLine.overridden_writeAll hwritten)
    (subReactorCount_baseConfig (mapError_eq_ok.mp hbase))
  have hvalid := validate_ok_iff.mp (mapError_eq_ok.mp hvalidate)
  exact ⟨(checkOptions_ok_iff hvalid).mpr hpos, hpos, hvalid.subReactors,
    validate_ok_iff.mpr (valid_without_subReactors hvalid)⟩

/-- A file with one sub reactor, and a command line that asks for the automatic number. -/
theorem constructor_accepts_auto :
    let toml := documentToml [("reactor", .table [("sub_reactors", .integer 1)])]
    let argv := [ascii "tinykv_server", ascii "--sub-reactors", ascii "0"]
    let config : AppConfig := { reactor := { subReactorCount := 8 } }
    startConfig toml 24 (some (ascii "tinykv.toml")) argv = .ok config ∧
      TcpServer.checkOptions config.network config.reactor = .ok () ∧
      1 ≤ config.reactor.subReactorCount ∧ config.reactor.subReactorCount ≤ 16 ∧
      validate { config with reactor := { config.reactor with subReactorCount := 0 } } =
        .ok () :=
  ⟨rfl, constructor_accepts
    (documentToml [("reactor", .table [("sub_reactors", .integer 1)])]) 24
    (some (ascii "tinykv.toml")) [ascii "tinykv_server", ascii "--sub-reactors", ascii "0"]
    { reactor := { subReactorCount := 8 } } rfl⟩

end ConfigLoader

end TinyKv
