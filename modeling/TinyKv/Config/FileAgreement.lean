import TinyKv.Config.Durations

/-!
# The file and its validation

The readings of the configuration file check their values one by one, and `Validate` checks
the configuration that they make up. Both are compared here on files whose values have the
right types.
-/

namespace TinyKv.ConfigLoader

/-! ### The values of a file -/

/-- Values for some of the keys of the configuration file. -/
structure FileValues where
  host : Option Bytes := none
  port : Option Int64 := none
  maxReadBufferBytes : Option Int64 := none
  writeLowWatermarkBytes : Option Int64 := none
  writeHighWatermarkBytes : Option Int64 := none
  writeHardLimitBytes : Option Int64 := none
  maxWriteBytesPerEvent : Option Int64 := none
  maxAcceptsPerEvent : Option Int64 := none
  poller : Option PollerOption := none
  subReactors : Option Int64 := none
  gracefulTimeout : Option Int64 := none
  sweepInterval : Option Int64 := none
  level : Option LogLevel := none

/-- The name of a backend. -/
def pollerName : PollerOption → Bytes
  | .auto => ascii "auto"
  | .poll => ascii "poll"
  | .epoll => ascii "epoll"

/-- The name of a log level. -/
def levelName : LogLevel → Bytes
  | .debug => ascii "debug"
  | .info => ascii "info"
  | .warn => ascii "warn"
  | .error => ascii "error"
  | .off => ascii "off"

/-- A document has the given value at a key, or nothing there. -/
def Entry (toml : Toml) (table : toml.Table) {α : Type} (read : toml.Node → Option α)
    (value : Option α) (name key : String) : Prop :=
  match value with
  | none => findNode toml table name key = .ok none
  | some value => ∃ node, findNode toml table name key = .ok (some node) ∧ read node = some value

/-- A document has exactly the given values at the keys that are read. -/
structure Holds (toml : Toml) (table : toml.Table) (values : FileValues) : Prop where
  host : Entry toml table toml.valueString values.host "server" "host"
  port : Entry toml table toml.valueInteger values.port "server" "port"
  maxReadBufferBytes : Entry toml table toml.valueInteger values.maxReadBufferBytes
    "network" "max_read_buffer_bytes"
  writeLowWatermarkBytes : Entry toml table toml.valueInteger values.writeLowWatermarkBytes
    "network" "write_low_watermark_bytes"
  writeHighWatermarkBytes : Entry toml table toml.valueInteger values.writeHighWatermarkBytes
    "network" "write_high_watermark_bytes"
  writeHardLimitBytes : Entry toml table toml.valueInteger values.writeHardLimitBytes
    "network" "write_hard_limit_bytes"
  maxWriteBytesPerEvent : Entry toml table toml.valueInteger values.maxWriteBytesPerEvent
    "network" "max_write_bytes_per_event"
  maxAcceptsPerEvent : Entry toml table toml.valueInteger values.maxAcceptsPerEvent
    "network" "max_accepts_per_event"
  poller : Entry toml table toml.valueString (values.poller.map pollerName) "reactor" "poller"
  subReactors : Entry toml table toml.valueInteger values.subReactors "reactor" "sub_reactors"
  gracefulTimeout : Entry toml table toml.valueInteger values.gracefulTimeout
    "shutdown" "graceful_timeout_ms"
  sweepInterval : Entry toml table toml.valueInteger values.sweepInterval "ttl" "sweep_interval_ms"
  level : Entry toml table toml.valueString (values.level.map levelName) "logging" "level"

namespace FileValues

/-- The byte sizes and counts of the network section. -/
def sizes (values : FileValues) : List (Option Int64) :=
  [values.maxReadBufferBytes, values.writeLowWatermarkBytes, values.writeHighWatermarkBytes,
    values.writeHardLimitBytes, values.maxWriteBytesPerEvent, values.maxAcceptsPerEvent]

/-- A number of sub reactors as a `size_t`, with zero replaced by the automatic number. -/
def subReactorCount (hardwareConcurrency : Nat) (value : Int64) : Nat :=
  if value = 0 then autoSubReactors hardwareConcurrency else value.toUInt64.toNat

/-- The values written over the defaults. -/
def written (hardwareConcurrency : Nat) (values : FileValues) : AppConfig :=
  let defaults : AppConfig := {}
  { host := values.host.getD defaults.host
    port := (values.port.map Int64.toInt).getD defaults.port
    network := {
      maxReadBufferBytes := sizeOr values.maxReadBufferBytes defaults.network.maxReadBufferBytes
      writeLowWatermarkBytes :=
        sizeOr values.writeLowWatermarkBytes defaults.network.writeLowWatermarkBytes
      writeHighWatermarkBytes :=
        sizeOr values.writeHighWatermarkBytes defaults.network.writeHighWatermarkBytes
      writeHardLimitBytes :=
        sizeOr values.writeHardLimitBytes defaults.network.writeHardLimitBytes
      maxWriteBytesPerEvent :=
        sizeOr values.maxWriteBytesPerEvent defaults.network.maxWriteBytesPerEvent
      maxAcceptsPerEvent :=
        sizeOr values.maxAcceptsPerEvent defaults.network.maxAcceptsPerEvent }
    reactor := {
      pollerBackend := values.poller.getD defaults.reactor.pollerBackend
      subReactorCount := (values.subReactors.map (subReactorCount hardwareConcurrency)).getD
        defaults.reactor.subReactorCount }
    shutdown := {
      gracefulTimeout :=
        (values.gracefulTimeout.map Int64.toInt).getD defaults.shutdown.gracefulTimeout }
    sweepInterval := (values.sweepInterval.map Int64.toInt).getD defaults.sweepInterval
    logLevel := values.level.getD defaults.logLevel }

/-- The values are legal: no size is negative, and `Validate` accepts them over the defaults. -/
structure Legal (hardwareConcurrency : Nat) (values : FileValues) : Prop where
  sizes : ∀ size? ∈ values.sizes, ∀ size ∈ size?, 0 ≤ size
  valid : validate (values.written hardwareConcurrency) = .ok ()

/-- What the readings check of the values, one by one. -/
structure Checked (values : FileValues) : Prop where
  port : ∀ port ∈ values.port, 1 ≤ port ∧ port ≤ 65535
  sizes : ∀ size? ∈ values.sizes, ∀ size ∈ size?, 0 ≤ size
  subReactors : ∀ count ∈ values.subReactors, 0 ≤ count ∧ count ≤ 16
  graceful : ∀ timeout ∈ values.gracefulTimeout, 0 < timeout
  sweep : ∀ interval ∈ values.sweepInterval, 0 < interval

end FileValues

/-! ### What is read -/

variable {toml : Toml} {table : toml.Table}

theorem readString_entry {value : Option Bytes} {name key : String}
    (h : Entry toml table toml.valueString value name key) :
    readString toml table name key = .ok value := by
  cases value with
  | none =>
      change findNode toml table name key = .ok none at h
      rw [readString, h]
      rfl
  | some value =>
      obtain ⟨node, hnode, hvalue⟩ := h
      rw [readString, hnode]
      simp only [bind, Except.bind, hvalue]
      rfl

theorem readInteger_entry {value : Option Int64} {name key : String}
    (h : Entry toml table toml.valueInteger value name key) :
    readInteger toml table name key = .ok value := by
  cases value with
  | none =>
      change findNode toml table name key = .ok none at h
      rw [readInteger, h]
      rfl
  | some value =>
      obtain ⟨node, hnode, hvalue⟩ := h
      rw [readInteger, hnode]
      simp only [bind, Except.bind, hvalue]
      rfl

theorem parsePollerBackend_pollerName (backend : PollerOption) :
    ConfigParser.parsePollerBackend (pollerName backend) = .ok backend := by
  cases backend <;> rfl

theorem parseLogLevel_levelName (level : LogLevel) :
    ConfigParser.parseLogLevel (levelName level) = .ok level := by
  cases level <;> rfl

/-- A count as a `size_t`: a negative one wraps round. -/
theorem toInt_eq_toUInt64 (value : Int64) :
    value.toInt = value.toUInt64.toNat ∨
      value.toInt < 0 ∧ (2 ^ 63 : Int) ≤ value.toUInt64.toNat := by
  have hlt := value.toUInt64.toNat_lt
  have hcond : value.toInt = if 2 * value.toUInt64.toNat < 2 ^ 64 then
      (value.toUInt64.toNat : Int) else (value.toUInt64.toNat : Int) - (2 ^ 64 : Nat) :=
    BitVec.toInt_eq_toNat_cond value.toBitVec
  split at hcond
  · exact .inl hcond
  · exact .inr ⟨by omega, by omega⟩

/-- A count that is not negative is the same as a `size_t`. -/
theorem subReactorsOf_eq (hardwareConcurrency : Nat) {value : Int64} (h : 0 ≤ value) :
    subReactorsOf hardwareConcurrency value =
      FileValues.subReactorCount hardwareConcurrency value := by
  have hle : (0 : Int64).toInt ≤ value.toInt := Int64.le_iff_toInt_le.mp h
  rw [Int64.toInt_zero] at hle
  have hcases := toInt_eq_toUInt64 value
  unfold subReactorsOf FileValues.subReactorCount
  split
  · rfl
  · omega

/-! ### The sections of a file that holds values -/

section Sections

variable {values : FileValues} {config config' : AppConfig}

theorem readServerConfig_holds (h : Holds toml table values) :
    readServerConfig toml table config = .ok config' ↔
      (∀ port ∈ values.port, 1 ≤ port ∧ port ≤ 65535) ∧
        config' = { config with
          host := values.host.getD config.host
          port := (values.port.map Int64.toInt).getD config.port } := by
  rw [readServerConfig_ok_iff, readString_entry h.host, readInteger_entry h.port]
  simp only [Except.ok.injEq, ↓existsAndEq, true_and]

theorem readReactorConfig_holds (h : Holds toml table values) :
    readReactorConfig toml table config = .ok config' ↔
      (∀ size? ∈ values.sizes, ∀ size ∈ size?, 0 ≤ size) ∧
        config' = { config with network := {
          maxReadBufferBytes :=
            sizeOr values.maxReadBufferBytes config.network.maxReadBufferBytes
          writeLowWatermarkBytes :=
            sizeOr values.writeLowWatermarkBytes config.network.writeLowWatermarkBytes
          writeHighWatermarkBytes :=
            sizeOr values.writeHighWatermarkBytes config.network.writeHighWatermarkBytes
          writeHardLimitBytes :=
            sizeOr values.writeHardLimitBytes config.network.writeHardLimitBytes
          maxWriteBytesPerEvent :=
            sizeOr values.maxWriteBytesPerEvent config.network.maxWriteBytesPerEvent
          maxAcceptsPerEvent :=
            sizeOr values.maxAcceptsPerEvent config.network.maxAcceptsPerEvent } } := by
  rw [readReactorConfig_ok_iff, readInteger_entry h.maxReadBufferBytes,
    readInteger_entry h.writeLowWatermarkBytes, readInteger_entry h.writeHighWatermarkBytes,
    readInteger_entry h.writeHardLimitBytes, readInteger_entry h.maxWriteBytesPerEvent,
    readInteger_entry h.maxAcceptsPerEvent]
  constructor
  · rintro ⟨_, _, _, _, _, _, ⟨⟨⟩, ⟨⟩, ⟨⟩, ⟨⟩, ⟨⟩, ⟨⟩⟩, hsizes, hconfig⟩
    exact ⟨hsizes, hconfig⟩
  · rintro ⟨hsizes, hconfig⟩
    exact ⟨_, _, _, _, _, _, ⟨rfl, rfl, rfl, rfl, rfl, rfl⟩, hsizes, hconfig⟩

theorem readPollerBackend_holds (h : Holds toml table values) :
    readPollerBackend toml table config = .ok config' ↔
      config' = { config with reactor := { config.reactor with
        pollerBackend := values.poller.getD config.reactor.pollerBackend } } := by
  rw [readPollerBackend_ok_iff, readString_entry h.poller]
  cases values.poller with
  | none => simp [eq_comm]
  | some backend => simp [parsePollerBackend_pollerName]

theorem readNetworkConfig_holds {hardwareConcurrency : Nat} (h : Holds toml table values) :
    readNetworkConfig toml hardwareConcurrency table config = .ok config' ↔
      (∀ count ∈ values.subReactors, 0 ≤ count ∧ count ≤ 16) ∧
        config' = { config with reactor := {
          pollerBackend := values.poller.getD config.reactor.pollerBackend
          subReactorCount :=
            (values.subReactors.map (FileValues.subReactorCount hardwareConcurrency)).getD
              config.reactor.subReactorCount } } := by
  have hcount (hrange : ∀ count ∈ values.subReactors, 0 ≤ count ∧ count ≤ 16) :
      values.subReactors.map (subReactorsOf hardwareConcurrency) =
        values.subReactors.map (FileValues.subReactorCount hardwareConcurrency) :=
    Option.map_congr fun count hmem => subReactorsOf_eq hardwareConcurrency (hrange count hmem).1
  rw [readNetworkConfig_ok_iff, readInteger_entry h.subReactors]
  constructor
  · rintro ⟨_, _, hbackend, ⟨⟩, hrange, rfl⟩
    rw [readPollerBackend_holds h] at hbackend
    rw [hcount hrange, hbackend]
    exact ⟨hrange, rfl⟩
  · rintro ⟨hrange, rfl⟩
    refine ⟨_, _, (readPollerBackend_holds h).mpr rfl, rfl, hrange, ?_⟩
    rw [hcount hrange]

theorem readShutdownConfig_holds (h : Holds toml table values) :
    readShutdownConfig toml table config = .ok config' ↔
      (∀ timeout ∈ values.gracefulTimeout, 0 < timeout) ∧
        config' = { config with shutdown :=
          ⟨(values.gracefulTimeout.map Int64.toInt).getD config.shutdown.gracefulTimeout⟩ } := by
  rw [readShutdownConfig_ok_iff, readInteger_entry h.gracefulTimeout]
  simp only [Except.ok.injEq, ↓existsAndEq, true_and]

theorem readTTLConfig_holds (h : Holds toml table values) :
    readTTLConfig toml table config = .ok config' ↔
      (∀ interval ∈ values.sweepInterval, 0 < interval) ∧
        config' = { config with
          sweepInterval := (values.sweepInterval.map Int64.toInt).getD config.sweepInterval } := by
  rw [readTTLConfig_ok_iff, readInteger_entry h.sweepInterval]
  simp only [Except.ok.injEq, ↓existsAndEq, true_and]

theorem readLogConfig_holds (h : Holds toml table values) :
    readLogConfig toml table config = .ok config' ↔
      config' = { config with logLevel := values.level.getD config.logLevel } := by
  rw [readLogConfig_ok_iff, readString_entry h.level]
  cases values.level with
  | none => simp [eq_comm]
  | some level => simp [parseLogLevel_levelName]

/-- A file is read exactly if its values pass the checks and make up a valid configuration. -/
theorem loadFromFile_ok_iff {hardwareConcurrency : Nat} {path : Bytes}
    (hparse : toml.parseFile path = .ok table) (h : Holds toml table values) :
    (∃ config, loadFromFile toml hardwareConcurrency path = .ok config) ↔
      values.Checked ∧ Valid (values.written hardwareConcurrency) := by
  constructor
  · rintro ⟨config, hload⟩
    obtain ⟨_, htable, hload⟩ := bind_eq_ok.mp hload
    rw [hparse] at htable
    cases htable
    obtain ⟨_, hserver, hload⟩ := bind_eq_ok.mp hload
    obtain ⟨_, hnetwork, hload⟩ := bind_eq_ok.mp hload
    obtain ⟨_, hreactor, hload⟩ := bind_eq_ok.mp hload
    obtain ⟨_, hshutdown, hload⟩ := bind_eq_ok.mp hload
    obtain ⟨_, httl, hload⟩ := bind_eq_ok.mp hload
    obtain ⟨_, hlog, hload⟩ := bind_eq_ok.mp hload
    obtain ⟨_, hvalid, -⟩ := bind_eq_ok.mp hload
    obtain ⟨hport, rfl⟩ := (readServerConfig_holds h).mp hserver
    obtain ⟨hsizes, rfl⟩ := (readReactorConfig_holds h).mp hnetwork
    obtain ⟨hcount, rfl⟩ := (readNetworkConfig_holds h).mp hreactor
    obtain ⟨htimeout, rfl⟩ := (readShutdownConfig_holds h).mp hshutdown
    obtain ⟨hinterval, rfl⟩ := (readTTLConfig_holds h).mp httl
    obtain rfl := (readLogConfig_holds h).mp hlog
    exact ⟨⟨hport, hsizes, hcount, htimeout, hinterval⟩, validate_ok_iff.mp hvalid⟩
  · rintro ⟨⟨hport, hsizes, hcount, htimeout, hinterval⟩, hvalid⟩
    refine ⟨values.written hardwareConcurrency, bind_eq_ok.mpr ⟨table, hparse, ?_⟩⟩
    refine bind_eq_ok.mpr ⟨_, (readServerConfig_holds h).mpr ⟨hport, rfl⟩, ?_⟩
    refine bind_eq_ok.mpr ⟨_, (readReactorConfig_holds h).mpr ⟨hsizes, rfl⟩, ?_⟩
    refine bind_eq_ok.mpr ⟨_, (readNetworkConfig_holds h).mpr ⟨hcount, rfl⟩, ?_⟩
    refine bind_eq_ok.mpr ⟨_, (readShutdownConfig_holds h).mpr ⟨htimeout, rfl⟩, ?_⟩
    refine bind_eq_ok.mpr ⟨_, (readTTLConfig_holds h).mpr ⟨hinterval, rfl⟩, ?_⟩
    refine bind_eq_ok.mpr ⟨_, (readLogConfig_holds h).mpr rfl, ?_⟩
    exact bind_eq_ok.mpr ⟨(), validate_ok_iff.mpr hvalid, rfl⟩

end Sections

/-! ### Legal values -/

/-- A value of a file, or the default. -/
def intOr (value? : Option Int64) (value : Int) : Int := (value?.map Int64.toInt).getD value

/-- The ranges of legal values, with the defaults for those that are not given. -/
structure FileValues.Sound (values : FileValues) : Prop where
  host : values.host ≠ some []
  port : 1 ≤ intOr values.port 7777 ∧ intOr values.port 7777 ≤ 65535
  read : 4 ≤ intOr values.maxReadBufferBytes 1048580
  low : 0 ≤ intOr values.writeLowWatermarkBytes 524288
  low_le_high :
    intOr values.writeLowWatermarkBytes 524288 ≤ intOr values.writeHighWatermarkBytes 1048576
  high_le_hard :
    intOr values.writeHighWatermarkBytes 1048576 ≤ intOr values.writeHardLimitBytes 4194304
  write : 0 < intOr values.maxWriteBytesPerEvent 65536
  accepts : 0 < intOr values.maxAcceptsPerEvent 64
  subReactors : 0 ≤ intOr values.subReactors 2 ∧ intOr values.subReactors 2 ≤ 16
  graceful : 0 < intOr values.gracefulTimeout 3000
  sweep : 0 ≤ intOr values.sweepInterval 5000

theorem sizeOr_eq (size? : Option Int64) (size : Nat) :
    sizeOr size? size = (intOr size? size).toNat := by
  cases size? with
  | none => rfl
  | some size => rfl

theorem nonneg_iff (size? : Option Int64) (size : Nat) :
    (∀ value ∈ size?, 0 ≤ value) ↔ 0 ≤ intOr size? size := by
  cases size? with
  | none => simp [intOr]
  | some value => simp [intOr, Int64.le_iff_toInt_le]

theorem FileValues.sizes_iff (values : FileValues) :
    (∀ size? ∈ values.sizes, ∀ size ∈ size?, 0 ≤ size) ↔
      0 ≤ intOr values.maxReadBufferBytes 1048580 ∧
      0 ≤ intOr values.writeLowWatermarkBytes 524288 ∧
      0 ≤ intOr values.writeHighWatermarkBytes 1048576 ∧
      0 ≤ intOr values.writeHardLimitBytes 4194304 ∧
      0 ≤ intOr values.maxWriteBytesPerEvent 65536 ∧ 0 ≤ intOr values.maxAcceptsPerEvent 64 := by
  simp only [FileValues.sizes, List.forall_mem_cons, List.not_mem_nil, false_imp_iff,
    forall_true_iff, and_true]
  rw [nonneg_iff _ 1048580, nonneg_iff _ 524288, nonneg_iff _ 1048576, nonneg_iff _ 4194304,
    nonneg_iff _ 65536, nonneg_iff _ 64]
  rfl

/-- The bound on the number of sub reactors, in either type. -/
theorem subReactorCount_le_iff (hardwareConcurrency : Nat) (count? : Option Int64) :
    (count?.map (FileValues.subReactorCount hardwareConcurrency)).getD 2 ≤ 16 ↔
      0 ≤ intOr count? 2 ∧ intOr count? 2 ≤ 16 := by
  cases count? with
  | none =>
      change 2 ≤ 16 ↔ (0 : Int) ≤ 2 ∧ (2 : Int) ≤ 16
      decide
  | some count =>
      change FileValues.subReactorCount hardwareConcurrency count ≤ 16 ↔
        0 ≤ count.toInt ∧ count.toInt ≤ 16
      unfold FileValues.subReactorCount
      split
      next hzero =>
        subst hzero
        have hauto : autoSubReactors hardwareConcurrency ≤ 8 := by
          unfold autoSubReactors
          omega
        have htoInt : (0 : Int64).toInt = 0 := Int64.toInt_zero
        omega
      next hzero =>
        have hcases := toInt_eq_toUInt64 count
        omega

/-- The values are legal exactly if they are in their ranges. -/
theorem FileValues.legal_iff (hardwareConcurrency : Nat) (values : FileValues) :
    values.Legal hardwareConcurrency ↔ values.Sound := by
  have hhost : values.host.getD ({} : AppConfig).host ≠ [] ↔ values.host ≠ some [] := by
    cases values.host with
    | none => exact ⟨fun _ => nofun, fun _ => by decide⟩
    | some host => simp
  have hcount := subReactorCount_le_iff hardwareConcurrency values.subReactors
  have hread : sizeOr values.maxReadBufferBytes 1048580 =
      (intOr values.maxReadBufferBytes 1048580).toNat := sizeOr_eq ..
  have hlow : sizeOr values.writeLowWatermarkBytes 524288 =
      (intOr values.writeLowWatermarkBytes 524288).toNat := sizeOr_eq ..
  have hhigh : sizeOr values.writeHighWatermarkBytes 1048576 =
      (intOr values.writeHighWatermarkBytes 1048576).toNat := sizeOr_eq ..
  have hhard : sizeOr values.writeHardLimitBytes 4194304 =
      (intOr values.writeHardLimitBytes 4194304).toNat := sizeOr_eq ..
  have hwrite : sizeOr values.maxWriteBytesPerEvent 65536 =
      (intOr values.maxWriteBytesPerEvent 65536).toNat := sizeOr_eq ..
  have haccepts : sizeOr values.maxAcceptsPerEvent 64 =
      (intOr values.maxAcceptsPerEvent 64).toNat := sizeOr_eq ..
  constructor
  · rintro ⟨hsizes, hvalid⟩
    obtain ⟨_, _, _, _, _, _⟩ := (values.sizes_iff).mp hsizes
    have hvalid := validate_ok_iff.mp hvalid
    obtain ⟨hread', hlow', hhigh', hwrite', haccepts'⟩ := hvalid.network
    change 4 ≤ sizeOr values.maxReadBufferBytes 1048580 at hread'
    change sizeOr values.writeLowWatermarkBytes 524288 ≤
      sizeOr values.writeHighWatermarkBytes 1048576 at hlow'
    change sizeOr values.writeHighWatermarkBytes 1048576 ≤
      sizeOr values.writeHardLimitBytes 4194304 at hhigh'
    change 0 < sizeOr values.maxWriteBytesPerEvent 65536 at hwrite'
    change 0 < sizeOr values.maxAcceptsPerEvent 64 at haccepts'
    exact ⟨hhost.mp hvalid.host, hvalid.port, by omega, by omega, by omega, by omega, by omega,
      by omega, hcount.mp hvalid.subReactors, hvalid.graceful, hvalid.sweep⟩
  · rintro ⟨hhost', hport, hread', hlow', hlow_le, hhigh_le, hwrite', haccepts', hcount',
      hgraceful, hsweep⟩
    refine ⟨(values.sizes_iff).mpr ⟨by omega, by omega, by omega, by omega, by omega, by omega⟩,
      validate_ok_iff.mpr ⟨hhost.mpr hhost', hport, ?_, hcount.mpr hcount', hgraceful, hsweep⟩⟩
    constructor
    · change 4 ≤ sizeOr values.maxReadBufferBytes 1048580
      omega
    · change sizeOr values.writeLowWatermarkBytes 524288 ≤
        sizeOr values.writeHighWatermarkBytes 1048576
      omega
    · change sizeOr values.writeHighWatermarkBytes 1048576 ≤
        sizeOr values.writeHardLimitBytes 4194304
      omega
    · change 0 < sizeOr values.maxWriteBytesPerEvent 65536
      omega
    · change 0 < sizeOr values.maxAcceptsPerEvent 64
      omega

/-! ### Agreement -/

theorem intOr_of_mem {value? : Option Int64} {value : Int64} (h : value ∈ value?) (default : Int) :
    intOr value? default = value.toInt := by
  rw [Option.mem_def.mp h]
  rfl

/-- Of legal values the readings refuse only a sweep interval of zero. -/
theorem FileValues.Sound.checked_iff {values : FileValues} (h : values.Sound) :
    values.Checked ↔ values.sweepInterval ≠ some 0 := by
  constructor
  · intro hchecked hzero
    exact absurd (hchecked.sweep 0 hzero) (by decide)
  · intro hne
    constructor
    · intro port hmem
      have hrange := h.port
      rw [intOr_of_mem hmem] at hrange
      exact ⟨Int64.le_iff_toInt_le.mpr hrange.1, Int64.le_iff_toInt_le.mpr hrange.2⟩
    · obtain ⟨_, _, _, _, _, _, _, _, _, _, _⟩ := h
      exact values.sizes_iff.mpr ⟨by omega, by omega, by omega, by omega, by omega, by omega⟩
    · intro count hmem
      have hrange := h.subReactors
      rw [intOr_of_mem hmem] at hrange
      exact ⟨Int64.le_iff_toInt_le.mpr hrange.1, Int64.le_iff_toInt_le.mpr hrange.2⟩
    · intro timeout hmem
      have hpos := h.graceful
      rw [intOr_of_mem hmem] at hpos
      exact Int64.lt_iff_toInt_lt.mpr hpos
    · intro interval hmem
      have hle := h.sweep
      rw [intOr_of_mem hmem] at hle
      have hle' : 0 ≤ interval := Int64.le_iff_toInt_le.mpr hle
      have hne' : (0 : Int64) ≠ interval := fun heq => hne (heq ▸ hmem)
      exact Int64.lt_of_le_of_ne hle' hne'

/-! ### Documents of values -/

/-- A section with those of its keys that have a value. -/
def documentSection (entries : List (String × Option Document)) : List (String × Document) :=
  entries.filterMap fun (key, value?) => value?.map fun value => (key, value)

/-- A document that has the given values. -/
def FileValues.document (values : FileValues) : List (String × Document) :=
  [("server", .table (documentSection
      [("host", values.host.map .string), ("port", values.port.map .integer)])),
    ("network", .table (documentSection
      [("max_read_buffer_bytes", values.maxReadBufferBytes.map .integer),
        ("write_low_watermark_bytes", values.writeLowWatermarkBytes.map .integer),
        ("write_high_watermark_bytes", values.writeHighWatermarkBytes.map .integer),
        ("write_hard_limit_bytes", values.writeHardLimitBytes.map .integer),
        ("max_write_bytes_per_event", values.maxWriteBytesPerEvent.map .integer),
        ("max_accepts_per_event", values.maxAcceptsPerEvent.map .integer)])),
    ("reactor", .table (documentSection
      [("poller", (values.poller.map pollerName).map .string),
        ("sub_reactors", values.subReactors.map .integer)])),
    ("shutdown", .table (documentSection
      [("graceful_timeout_ms", values.gracefulTimeout.map .integer)])),
    ("ttl", .table (documentSection
      [("sweep_interval_ms", values.sweepInterval.map .integer)])),
    ("logging", .table (documentSection
      [("level", (values.level.map levelName).map .string)]))]

theorem lookup_documentSection {entries : List (String × Option Document)} {key : String}
    {value? : Option Document} (hkeys : (entries.map Prod.fst).Nodup)
    (hmem : (key, value?) ∈ entries) : (documentSection entries).lookup key = value? := by
  induction entries with
  | nil => cases hmem
  | cons entry rest ih =>
      obtain ⟨name, first?⟩ := entry
      obtain ⟨hname, hrest⟩ := List.nodup_cons.mp hkeys
      have habsent : name ∉ (documentSection rest).map Prod.fst := by
        intro hlater
        apply hname
        obtain ⟨⟨name', value⟩, hvalue, rfl⟩ := List.mem_map.mp hlater
        obtain ⟨⟨name'', value?'⟩, hentry, hsome⟩ := List.mem_filterMap.mp hvalue
        cases value?' with
        | none => cases hsome
        | some value' =>
            cases hsome
            exact List.mem_map.mpr ⟨_, hentry, rfl⟩
      obtain heq | hentry := List.mem_cons.mp hmem
      · cases heq
        cases value? with
        | none =>
            change (documentSection rest).lookup key = none
            rw [List.lookup_eq_none_iff]
            intro later hlater
            refine bne_iff_ne.mpr fun heq => habsent ?_
            exact heq ▸ List.mem_map_of_mem hlater
        | some value =>
            change ((key, value) :: documentSection rest).lookup key = some value
            exact List.lookup_cons_self
      · have hne : key ≠ name := by
          rintro rfl
          exact hname (List.mem_map.mpr ⟨_, hentry, rfl⟩)
        have hlater := ih hrest hentry
        cases first? with
        | none => exact hlater
        | some first =>
            change ((name, first) :: documentSection rest).lookup key = value?
            rw [List.lookup_cons, beq_eq_false_iff_ne.mpr hne]
            exact hlater

/-- A value at a key of one of the sections of a document. -/
theorem entry_document {entries : List (String × Option Document)}
    {document : List (String × Document)} {α : Type} {value? : Option α}
    {read : Document → Option α} {name key : String} (node : α → Document)
    (hsection : document.lookup name = some (.table (documentSection entries)))
    (hkeys : (entries.map Prod.fst).Nodup) (hmem : (key, value?.map node) ∈ entries)
    (hread : ∀ value, read (node value) = some value) :
    Entry (documentToml document) document read value? name key := by
  have hnode : findNode (documentToml document) document name key = .ok (value?.map node) := by
    have hget : (documentToml document).get document name =
        some (.table (documentSection entries)) := hsection
    simp only [findNode, findTable, hget]
    exact congrArg Except.ok (lookup_documentSection hkeys hmem)
  cases value? with
  | none => exact hnode
  | some value => exact ⟨node value, hnode, hread value⟩

/-- Every choice of values is held by a document. -/
theorem holds_document (values : FileValues) :
    Holds (documentToml values.document) values.document values := by
  constructor
  · exact entry_document .string rfl (by simp) (by simp) fun _ => rfl
  · exact entry_document .integer rfl (by simp) (by simp) fun _ => rfl
  · exact entry_document .integer rfl (by simp) (by simp) fun _ => rfl
  · exact entry_document .integer rfl (by simp) (by simp) fun _ => rfl
  · exact entry_document .integer rfl (by simp) (by simp) fun _ => rfl
  · exact entry_document .integer rfl (by simp) (by simp) fun _ => rfl
  · exact entry_document .integer rfl (by simp) (by simp) fun _ => rfl
  · exact entry_document .integer rfl (by simp) (by simp) fun _ => rfl
  · exact entry_document .string rfl (by simp) (by simp) fun _ => rfl
  · exact entry_document .integer rfl (by simp) (by simp) fun _ => rfl
  · exact entry_document .integer rfl (by simp) (by simp) fun _ => rfl
  · exact entry_document .integer rfl (by simp) (by simp) fun _ => rfl
  · exact entry_document .string rfl (by simp) (by simp) fun _ => rfl

/-! ### Agreement of reading and validation -/

/-- Reading a file and validating what it writes over the defaults agree on its values exactly
if these do not ask for a sweep interval of zero, or are illegal for another reason. -/
theorem loadFromFile_agrees_iff (toml : Toml) (hardwareConcurrency : Nat) (path : Bytes)
    (table : toml.Table) (values : FileValues) (hparse : toml.parseFile path = .ok table)
    (hholds : Holds toml table values) :
    ((∃ config, loadFromFile toml hardwareConcurrency path = .ok config) ↔
      values.Legal hardwareConcurrency) ↔
      (values.sweepInterval = some 0 → ¬ values.Sound) := by
  rw [loadFromFile_ok_iff hparse hholds, values.legal_iff]
  have hvalid (hsound : values.Sound) : Valid (values.written hardwareConcurrency) :=
    validate_ok_iff.mp ((values.legal_iff hardwareConcurrency).mpr hsound).valid
  constructor
  · intro hagree hzero hsound
    exact hsound.checked_iff.mp (hagree.mpr hsound).1 hzero
  · intro hzero
    constructor
    · rintro ⟨hchecked, hvalid⟩
      exact (values.legal_iff hardwareConcurrency).mp
        ⟨hchecked.sizes, validate_ok_iff.mpr hvalid⟩
    · intro hsound
      exact ⟨hsound.checked_iff.mpr fun h => hzero h hsound, hvalid hsound⟩

/-- A file with a sweep interval only. -/
theorem loadFromFile_agrees_iff_sweep :
    let values : FileValues := { sweepInterval := some 250 }
    ((∃ config, loadFromFile (documentToml values.document) 8 (ascii "tinykv.toml") =
      .ok config) ↔ values.Legal 8) ↔ (values.sweepInterval = some 0 → ¬ values.Sound) :=
  loadFromFile_agrees_iff (documentToml _) 8 (ascii "tinykv.toml") _
    { sweepInterval := some 250 } rfl (holds_document _)

/-- A file that turns the sweeper off is refused, although the configuration is valid. -/
theorem loadFromFile_disagrees :
    let values : FileValues := { sweepInterval := some 0 }
    loadFromFile (documentToml values.document) 8 (ascii "tinykv.toml") =
        .error "configuration 'ttl.sweep_interval_ms' must not be negative" ∧
      validate (values.written 8) = .ok () ∧
      ¬ ((∃ config, loadFromFile (documentToml values.document) 8 (ascii "tinykv.toml") =
        .ok config) ↔ values.Legal 8) := by
  intro values
  have hload : loadFromFile (documentToml values.document) 8 (ascii "tinykv.toml") =
      .error "configuration 'ttl.sweep_interval_ms' must not be negative" := rfl
  have hvalid : validate (values.written 8) = .ok () := rfl
  refine ⟨hload, hvalid, fun hagree => ?_⟩
  have hlegal : values.Legal 8 := ⟨by simp [values, FileValues.sizes], hvalid⟩
  obtain ⟨config, hconfig⟩ := hagree.mpr hlegal
  rw [hload] at hconfig
  cases hconfig

end TinyKv.ConfigLoader
