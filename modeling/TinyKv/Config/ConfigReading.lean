import TinyKv.Config.ConfigLoader

/-!
# What the readings accept

Each section of the configuration file, as what it accepts and what it makes of the
configuration, and the configurations that `Validate` accepts.
-/

namespace TinyKv.ConfigLoader

/-! ### Validation -/

/-- The configurations that `Validate` accepts. -/
structure Valid (config : AppConfig) : Prop where
  host : config.host ≠ []
  port : 1 ≤ config.port ∧ config.port ≤ 65535
  network : config.network.Accepted
  subReactors : config.reactor.subReactorCount ≤ 16
  graceful : 0 < config.shutdown.gracefulTimeout
  sweep : 0 ≤ config.sweepInterval

theorem validate_ok_iff {config : AppConfig} : validate config = .ok () ↔ Valid config := by
  constructor
  · intro h
    have hnetwork := accepted_of_validate h
    simp only [validate, NetworkOptions.check_ok_iff.mpr hnetwork] at h
    split at h
    · cases h
    next hhost =>
    split at h
    · cases h
    next hport =>
    change (if _ then _ else _) = _ at h
    split at h
    · cases h
    next hcount =>
    split at h
    · cases h
    next hgraceful =>
    split at h
    · cases h
    next hsweep =>
      exact ⟨hhost, by omega, hnetwork, by omega, by omega, by omega⟩
  · rintro ⟨hhost, hport, hnetwork, hcount, hgraceful, hsweep⟩
    have hport' : ¬ (config.port < 1 ∨ config.port > 65535) := by omega
    simp only [validate, NetworkOptions.check_ok_iff.mpr hnetwork]
    rw [if_neg hhost, if_neg hport']
    change (if _ then _ else _) = _
    rw [if_neg (by omega), if_neg (by omega), if_neg (by omega)]
    rfl

/-! ### The sections -/

variable {toml : Toml} {table : toml.Table} {config config' : AppConfig}

theorem toSize_ok_iff {value : Int64} {name : String} {size : Nat} :
    toSize value name = .ok size ↔ 0 ≤ value ∧ size = value.toInt.toNat := by
  unfold toSize
  split
  next hneg =>
    constructor
    · nofun
    · rintro ⟨hle, -⟩
      exact absurd hneg (Int64.not_lt.mpr hle)
  next hneg =>
    simp [Int64.not_lt.mp hneg, eq_comm]

/-- A reading that is refused when it is bad. -/
theorem checked_ok_iff (bad : Int64 → Prop) [DecidablePred bad] {e : String} (base : AppConfig)
    (set : Int64 → AppConfig) (value? : Option Int64) :
    (match value? with
      | some value => if bad value then (throw e : Except String AppConfig) else pure (set value)
      | none => pure base) = .ok config' ↔
        (∀ value ∈ value?, ¬ bad value) ∧ config' = value?.elim base set := by
  cases value? with
  | none => simp [pure_eq_ok]
  | some value =>
      by_cases hbad : bad value
      · simp [hbad, throw, throwThe, MonadExceptOf.throw]
      · simp [hbad, pure_eq_ok]

theorem readServerConfig_ok_iff :
    readServerConfig toml table config = .ok config' ↔
      ∃ host? port?, readString toml table "server" "host" = .ok host? ∧
        readInteger toml table "server" "port" = .ok port? ∧
        (∀ port ∈ port?, 1 ≤ port ∧ port ≤ 65535) ∧
        config' = { config with
          host := host?.getD config.host
          port := (port?.map Int64.toInt).getD config.port } := by
  simp only [readServerConfig, bind_eq_ok, ← exists_and_left]
  refine exists_congr fun host? => exists_congr fun port? =>
    and_congr_right fun _ => and_congr_right fun _ => ?_
  have hport (e : String) (base : AppConfig) :
      (match port? with
        | some value =>
            if value < 1 ∨ value > 65535 then (throw e : Except String AppConfig)
            else pure { base with port := value.toInt }
        | none => pure base) = .ok config' ↔ (∀ port ∈ port?, 1 ≤ port ∧ port ≤ 65535) ∧
          config' = { base with port := (port?.map Int64.toInt).getD base.port } := by
    rw [checked_ok_iff (fun value => value < 1 ∨ value > 65535)]
    simp only [not_or, gt_iff_lt, Int64.not_lt]
    cases port? with
    | none => rfl
    | some port => rfl
  cases host? with
  | none => exact hport _ config
  | some host => exact hport _ { config with host }

/-- One of the sizes, which `get` takes from the options. -/
theorem readSize_ok_iff {key : String} {set : Nat → NetworkOptions → NetworkOptions}
    (get : NetworkOptions → Nat) (hset : ∀ o, set (get o) o = o) :
    readSize toml table key set config = .ok config' ↔
      ∃ size?, readInteger toml table "network" key = .ok size? ∧ (∀ size ∈ size?, 0 ≤ size) ∧
        config' = { config with
          network := set ((size?.map fun size => size.toInt.toNat).getD (get config.network))
            config.network } := by
  simp only [readSize, bind_eq_ok]
  refine exists_congr fun size? => and_congr_right fun _ => ?_
  cases size? with
  | none => simp [pure_eq_ok, hset]
  | some size => simp [bind_eq_ok, toSize_ok_iff, pure_eq_ok, and_assoc, -bind_pure_comp]

theorem bind_readSize_ok_iff {key : String} {set : Nat → NetworkOptions → NetworkOptions}
    (get : NetworkOptions → Nat) (hset : ∀ o, set (get o) o = o)
    {rest : AppConfig → Except String AppConfig} :
    (readSize toml table key set config >>= rest) = .ok config' ↔
      ∃ size?, readInteger toml table "network" key = .ok size? ∧ (∀ size ∈ size?, 0 ≤ size) ∧
        rest { config with
          network := set ((size?.map fun size => size.toInt.toNat).getD (get config.network))
            config.network } = .ok config' := by
  rw [bind_eq_ok]
  constructor
  · rintro ⟨_, hsize, hrest⟩
    obtain ⟨size?, hread, hpos, rfl⟩ := (readSize_ok_iff get hset).mp hsize
    exact ⟨size?, hread, hpos, hrest⟩
  · rintro ⟨size?, hread, hpos, hrest⟩
    exact ⟨_, (readSize_ok_iff get hset).mpr ⟨size?, hread, hpos, rfl⟩, hrest⟩

/-- A size as it is read, or the one in place. -/
def sizeOr (size? : Option Int64) (size : Nat) : Nat :=
  (size?.map fun size => size.toInt.toNat).getD size

theorem readReactorConfig_ok_iff :
    readReactorConfig toml table config = .ok config' ↔
      ∃ read? low? high? hard? write? accepts?,
        (readInteger toml table "network" "max_read_buffer_bytes" = .ok read? ∧
          readInteger toml table "network" "write_low_watermark_bytes" = .ok low? ∧
          readInteger toml table "network" "write_high_watermark_bytes" = .ok high? ∧
          readInteger toml table "network" "write_hard_limit_bytes" = .ok hard? ∧
          readInteger toml table "network" "max_write_bytes_per_event" = .ok write? ∧
          readInteger toml table "network" "max_accepts_per_event" = .ok accepts?) ∧
        (∀ size? ∈ [read?, low?, high?, hard?, write?, accepts?], ∀ size ∈ size?, 0 ≤ size) ∧
        config' = { config with network := {
          maxReadBufferBytes := sizeOr read? config.network.maxReadBufferBytes
          writeLowWatermarkBytes := sizeOr low? config.network.writeLowWatermarkBytes
          writeHighWatermarkBytes := sizeOr high? config.network.writeHighWatermarkBytes
          writeHardLimitBytes := sizeOr hard? config.network.writeHardLimitBytes
          maxWriteBytesPerEvent := sizeOr write? config.network.maxWriteBytesPerEvent
          maxAcceptsPerEvent := sizeOr accepts? config.network.maxAcceptsPerEvent } } := by
  simp only [List.forall_mem_cons, List.not_mem_nil, false_imp_iff, forall_true_iff, and_true]
  constructor
  · intro h
    obtain ⟨read?, hread, hread', h⟩ :=
      (bind_readSize_ok_iff (·.maxReadBufferBytes) fun _ => rfl).mp h
    obtain ⟨low?, hlow, hlow', h⟩ :=
      (bind_readSize_ok_iff (·.writeLowWatermarkBytes) fun _ => rfl).mp h
    obtain ⟨high?, hhigh, hhigh', h⟩ :=
      (bind_readSize_ok_iff (·.writeHighWatermarkBytes) fun _ => rfl).mp h
    obtain ⟨hard?, hhard, hhard', h⟩ :=
      (bind_readSize_ok_iff (·.writeHardLimitBytes) fun _ => rfl).mp h
    obtain ⟨write?, hwrite, hwrite', h⟩ :=
      (bind_readSize_ok_iff (·.maxWriteBytesPerEvent) fun _ => rfl).mp h
    obtain ⟨accepts?, haccepts, haccepts', rfl⟩ :=
      (readSize_ok_iff (·.maxAcceptsPerEvent) fun _ => rfl).mp h
    exact ⟨read?, low?, high?, hard?, write?, accepts?,
      ⟨hread, hlow, hhigh, hhard, hwrite, haccepts⟩,
      ⟨hread', hlow', hhigh', hhard', hwrite', haccepts'⟩, rfl⟩
  · rintro ⟨read?, low?, high?, hard?, write?, accepts?,
      ⟨hread, hlow, hhigh, hhard, hwrite, haccepts⟩,
      ⟨hread', hlow', hhigh', hhard', hwrite', haccepts'⟩, rfl⟩
    apply (bind_readSize_ok_iff (·.maxReadBufferBytes) fun _ => rfl).mpr
    refine ⟨read?, hread, hread', ?_⟩
    apply (bind_readSize_ok_iff (·.writeLowWatermarkBytes) fun _ => rfl).mpr
    refine ⟨low?, hlow, hlow', ?_⟩
    apply (bind_readSize_ok_iff (·.writeHighWatermarkBytes) fun _ => rfl).mpr
    refine ⟨high?, hhigh, hhigh', ?_⟩
    apply (bind_readSize_ok_iff (·.writeHardLimitBytes) fun _ => rfl).mpr
    refine ⟨hard?, hhard, hhard', ?_⟩
    apply (bind_readSize_ok_iff (·.maxWriteBytesPerEvent) fun _ => rfl).mpr
    refine ⟨write?, hwrite, hwrite', ?_⟩
    exact (readSize_ok_iff (·.maxAcceptsPerEvent) fun _ => rfl).mpr
      ⟨accepts?, haccepts, haccepts', rfl⟩

theorem readPollerBackend_ok_iff :
    readPollerBackend toml table config = .ok config' ↔
      ∃ name?, readString toml table "reactor" "poller" = .ok name? ∧
        ∃ pollerBackend, name?.elim (.ok config.reactor.pollerBackend)
            ConfigParser.parsePollerBackend = .ok pollerBackend ∧
          config' = { config with reactor := { config.reactor with pollerBackend } } := by
  simp only [readPollerBackend, bind_eq_ok]
  refine exists_congr fun name? => and_congr_right fun _ => ?_
  cases name? with
  | none => simp [pure_eq_ok]
  | some name => simp [bind_eq_ok, pure_eq_ok, -bind_pure_comp]

/-- The number of sub reactors that a value of the configuration file stands for. -/
def subReactorsOf (hardwareConcurrency : Nat) (value : Int64) : Nat :=
  if value = 0 then autoSubReactors hardwareConcurrency else value.toInt.toNat

theorem readNetworkConfig_ok_iff {hardwareConcurrency : Nat} :
    readNetworkConfig toml hardwareConcurrency table config = .ok config' ↔
      ∃ config₁ count?, readPollerBackend toml table config = .ok config₁ ∧
        readInteger toml table "reactor" "sub_reactors" = .ok count? ∧
        (∀ count ∈ count?, 0 ≤ count ∧ count ≤ 16) ∧
        config' = { config₁ with reactor := { config₁.reactor with
          subReactorCount := (count?.map (subReactorsOf hardwareConcurrency)).getD
            config₁.reactor.subReactorCount } } := by
  simp only [readNetworkConfig, bind_eq_ok, ← exists_and_left]
  refine exists_congr fun config₁ => exists_congr fun count? =>
    and_congr_right fun _ => and_congr_right fun _ => ?_
  apply (checked_ok_iff (fun value => value < 0 ∨ value > 16) config₁
    (fun value => { config₁ with reactor := { config₁.reactor with
      subReactorCount := subReactorsOf hardwareConcurrency value } }) count?).trans
  simp only [not_or, gt_iff_lt, Int64.not_lt]
  cases count? with
  | none => rfl
  | some count => rfl

theorem readShutdownConfig_ok_iff :
    readShutdownConfig toml table config = .ok config' ↔
      ∃ timeout?, readInteger toml table "shutdown" "graceful_timeout_ms" = .ok timeout? ∧
        (∀ timeout ∈ timeout?, 0 < timeout) ∧
        config' = { config with shutdown :=
          ⟨(timeout?.map Int64.toInt).getD config.shutdown.gracefulTimeout⟩ } := by
  simp only [readShutdownConfig, bind_eq_ok]
  refine exists_congr fun timeout? => and_congr_right fun _ => ?_
  apply (checked_ok_iff (· ≤ 0) config
    (fun value => { config with shutdown := ⟨value.toInt⟩ }) timeout?).trans
  simp only [Int64.not_le]
  cases timeout? with
  | none => rfl
  | some timeout => rfl

theorem readTTLConfig_ok_iff :
    readTTLConfig toml table config = .ok config' ↔
      ∃ interval?, readInteger toml table "ttl" "sweep_interval_ms" = .ok interval? ∧
        (∀ interval ∈ interval?, 0 < interval) ∧
        config' = { config with
          sweepInterval := (interval?.map Int64.toInt).getD config.sweepInterval } := by
  simp only [readTTLConfig, bind_eq_ok]
  refine exists_congr fun interval? => and_congr_right fun _ => ?_
  apply (checked_ok_iff (· ≤ 0) config
    (fun value => { config with sweepInterval := value.toInt }) interval?).trans
  simp only [Int64.not_le]
  cases interval? with
  | none => rfl
  | some interval => rfl

theorem readLogConfig_ok_iff :
    readLogConfig toml table config = .ok config' ↔
      ∃ name?, readString toml table "logging" "level" = .ok name? ∧
        ∃ level, name?.elim (.ok config.logLevel) ConfigParser.parseLogLevel = .ok level ∧
          config' = { config with logLevel := level } := by
  simp only [readLogConfig, bind_eq_ok]
  refine exists_congr fun name? => and_congr_right fun _ => ?_
  cases name? with
  | none => simp [pure_eq_ok]
  | some name => simp [bind_eq_ok, pure_eq_ok, -bind_pure_comp]

/-! ### The whole file -/

theorem autoSubReactors_pos (hardwareConcurrency : Nat) :
    0 < autoSubReactors hardwareConcurrency :=
  Nat.lt_of_lt_of_le Nat.zero_lt_one (Nat.le_max_left ..)

theorem subReactorsOf_pos (hardwareConcurrency : Nat) {value : Int64} (h : 0 ≤ value) :
    0 < subReactorsOf hardwareConcurrency value := by
  unfold subReactorsOf
  split
  · exact autoSubReactors_pos hardwareConcurrency
  next hne =>
    have hle : (0 : Int64).toInt ≤ value.toInt := Int64.le_iff_toInt_le.mp h
    have hne' : value.toInt ≠ (0 : Int64).toInt := fun heq => hne (Int64.toInt_inj.mp heq)
    rw [Int64.toInt_zero] at hle hne'
    omega

/-- What is loaded is valid, sweeps at a positive interval and has a sub reactor. -/
theorem loadFromFile_ok {hardwareConcurrency : Nat} {path : Bytes}
    (h : loadFromFile toml hardwareConcurrency path = .ok config) :
    Valid config ∧ 0 < config.sweepInterval ∧ 0 < config.reactor.subReactorCount := by
  obtain ⟨table, -, h⟩ := bind_eq_ok.mp h
  obtain ⟨config₁, hserver, h⟩ := bind_eq_ok.mp h
  obtain ⟨config₂, hnetwork, h⟩ := bind_eq_ok.mp h
  obtain ⟨config₃, hreactor, h⟩ := bind_eq_ok.mp h
  obtain ⟨config₄, hshutdown, h⟩ := bind_eq_ok.mp h
  obtain ⟨config₅, httl, h⟩ := bind_eq_ok.mp h
  obtain ⟨config₆, hlog, h⟩ := bind_eq_ok.mp h
  obtain ⟨_, hvalid, h⟩ := bind_eq_ok.mp h
  cases h
  refine ⟨validate_ok_iff.mp hvalid, ?_⟩
  obtain ⟨_, _, _, _, _, rfl⟩ := readServerConfig_ok_iff.mp hserver
  obtain ⟨_, _, _, _, _, _, _, _, rfl⟩ := readReactorConfig_ok_iff.mp hnetwork
  obtain ⟨_, count?, hbackend, _, hcount, rfl⟩ := readNetworkConfig_ok_iff.mp hreactor
  obtain ⟨_, _, _, _, rfl⟩ := readPollerBackend_ok_iff.mp hbackend
  obtain ⟨_, _, _, rfl⟩ := readShutdownConfig_ok_iff.mp hshutdown
  obtain ⟨interval?, _, hinterval, rfl⟩ := readTTLConfig_ok_iff.mp httl
  obtain ⟨_, _, _, _, rfl⟩ := readLogConfig_ok_iff.mp hlog
  constructor
  · cases interval? with
    | none => exact (by decide : (0 : Int) < 5000)
    | some interval =>
        have hpos := Int64.lt_iff_toInt_lt.mp (hinterval interval rfl)
        rwa [Int64.toInt_zero] at hpos
  · cases count? with
    | none => exact Nat.zero_lt_two
    | some count => exact subReactorsOf_pos hardwareConcurrency (hcount count rfl).1

end TinyKv.ConfigLoader
