import TinyKv.Config.ConfigReading

/-!
# Durations on the steady clock

The steady clock counts nanoseconds in a signed 64-bit integer. The configured durations are
signed 64-bit counts of milliseconds, which are converted to nanoseconds before they are added
to a reading of the clock.
-/

namespace TinyKv

/-- The value of a signed 64-bit integer. -/
def Fits (value : Int) : Prop := -2 ^ 63 ≤ value ∧ value < 2 ^ 63

/-- `now + timeout` for a count of milliseconds, as the processor computes it. -/
def timePointAfter (now timeout : Int64) : Int64 := now + timeout * 1000000

/-- The conversion of a duration and its addition to a reading are free of overflow. -/
structure Representable (now : Int64) (timeout : Int) : Prop where
  converted : Fits (timeout * 1000000)
  added : Fits (now.toInt + timeout * 1000000)

theorem bmod_of_fits {value : Int} (h : Fits value) : value.bmod (2 ^ 64) = value := by
  apply Int.bmod_eq_of_le
  · have := h.1
    omega
  · have := h.2
    omega

/-- Without overflow the computed sum is the sum. -/
theorem Representable.toInt_timePointAfter {now : Int64} {timeout : Int}
    (h : Representable now timeout) :
    (timePointAfter now (Int64.ofInt timeout)).toInt = now.toInt + timeout * 1000000 := by
  have htimeout : Fits timeout := by
    obtain ⟨hlow, hhigh⟩ := h.converted
    constructor
    · omega
    · omega
  have hmillion : (1000000 : Int64).toInt = 1000000 := by decide
  rw [timePointAfter, Int64.toInt_add, Int64.toInt_mul,
    Int64.toInt_ofInt_of_le htimeout.1 htimeout.2, hmillion, bmod_of_fits h.converted,
    bmod_of_fits h.added]

/-- A duration of up to 2^62 nanoseconds can be added to every reading below that. -/
theorem representable_iff {timeout : Int} (hpos : 0 < timeout) :
    (∀ now : Int64, now.toInt < 2 ^ 62 → Representable now timeout) ↔
      timeout ≤ 4611686018427 := by
  constructor
  · intro h
    have hlast : (4611686018427387903 : Int64).toInt = 4611686018427387903 := by decide
    have hadded := (h 4611686018427387903 (by rw [hlast]; decide)).added.2
    rw [hlast] at hadded
    omega
  · intro hle now hnow
    have hnow' := now.le_toInt
    constructor
    · constructor
      · omega
      · omega
    · constructor
      · omega
      · omega

namespace ConfigLoader

variable {toml : Toml}

/-- A file that is accepted configures positive durations. -/
theorem durations_pos {hardwareConcurrency : Nat} {path : Bytes} {config : AppConfig}
    (h : loadFromFile toml hardwareConcurrency path = .ok config) :
    0 < config.shutdown.gracefulTimeout ∧ 0 < config.sweepInterval := by
  obtain ⟨hvalid, hsweep, -⟩ := loadFromFile_ok h
  exact ⟨hvalid.graceful, hsweep⟩

/-! ### The deadlines -/

/-- The deadline `BeginGracefulShutdown` computes. -/
def shutdownDeadline (config : AppConfig) (now : Int64) : Int64 :=
  timePointAfter now (Int64.ofInt config.shutdown.gracefulTimeout)

/-- The time until which the sweeper waits. -/
def sweepDeadline (config : AppConfig) (now : Int64) : Int64 :=
  timePointAfter now (Int64.ofInt config.sweepInterval)

/-- At a reading of the clock, neither deadline overflows, and both lie ahead. -/
structure Ahead (config : AppConfig) (now : Int64) : Prop where
  graceful : Representable now config.shutdown.gracefulTimeout
  sweep : Representable now config.sweepInterval
  shutdown_after : now < shutdownDeadline config now
  wait_after : now < sweepDeadline config now

theorem lt_timePointAfter {now : Int64} {timeout : Int} (hpos : 0 < timeout)
    (h : Representable now timeout) : now < timePointAfter now (Int64.ofInt timeout) := by
  rw [Int64.lt_iff_toInt_lt, h.toInt_timePointAfter]
  omega

/-- The deadlines of a configuration that is accepted lie ahead of all readings in the lower
half of the clock exactly when neither duration exceeds about 146 years. -/
theorem durations_ahead_iff (toml : Toml) (hardwareConcurrency : Nat) (path : Bytes)
    (config : AppConfig) (h : loadFromFile toml hardwareConcurrency path = .ok config) :
    (∀ now : Int64, now.toInt < 2 ^ 62 → Ahead config now) ↔
      config.shutdown.gracefulTimeout ≤ 4611686018427 ∧
        config.sweepInterval ≤ 4611686018427 := by
  obtain ⟨hgraceful, hsweep⟩ := durations_pos h
  constructor
  · intro hahead
    exact ⟨(representable_iff hgraceful).mp fun now hnow => (hahead now hnow).graceful,
      (representable_iff hsweep).mp fun now hnow => (hahead now hnow).sweep⟩
  · rintro ⟨hgraceful_le, hsweep_le⟩ now hnow
    have hdrain := (representable_iff hgraceful).mpr hgraceful_le now hnow
    have hwait := (representable_iff hsweep).mpr hsweep_le now hnow
    exact ⟨hdrain, hwait, lt_timePointAfter hgraceful hdrain, lt_timePointAfter hsweep hwait⟩

/-! ### A library of documents -/

/-- A node of a document. -/
inductive Document where
  | integer (value : Int64)
  | string (text : Bytes)
  | table (entries : List (String × Document))

/-- The entries of a table. -/
def Document.entries? : Document → Option (List (String × Document))
  | .table entries => some entries
  | _ => none

/-- A file that holds a given document, whatever its path. -/
def documentToml (entries : List (String × Document)) : Toml where
  Table := List (String × Document)
  Node := Document
  parseFile _ := .ok entries
  get table key := table.lookup key
  asTable := Document.entries?
  valueString
    | .string text => some text
    | _ => none
  valueInteger
    | .integer value => some value
    | _ => none

/-- A file that asks for thirty seconds to drain, and for a sweep every quarter of a second. -/
def durationsFile : List (String × Document) :=
  [("shutdown", .table [("graceful_timeout_ms", .integer 30000)]),
    ("ttl", .table [("sweep_interval_ms", .integer 250)])]

theorem durations_ahead_iff_given :
    let config : AppConfig := { shutdown := { gracefulTimeout := 30000 }, sweepInterval := 250 }
    loadFromFile (documentToml durationsFile) 8 (ascii "tinykv.toml") = .ok config ∧
      ∀ now : Int64, now.toInt < 2 ^ 62 → Ahead config now := by
  intro config
  have hread : loadFromFile (documentToml durationsFile) 8 (ascii "tinykv.toml") = .ok config :=
    rfl
  exact ⟨hread, (durations_ahead_iff (documentToml durationsFile) 8 (ascii "tinykv.toml") config
    hread).mpr ⟨by decide, by decide⟩⟩

/-- A file with the longest timeout, which asks for a deadline a millisecond ago. -/
theorem shutdownDeadline_of_longest_timeout :
    let toml := documentToml
      [("shutdown", .table [("graceful_timeout_ms", .integer 9223372036854775807)])]
    let config : AppConfig := { shutdown := { gracefulTimeout := 9223372036854775807 } }
    loadFromFile toml 8 (ascii "tinykv.toml") = .ok config ∧
      shutdownDeadline config 1000000000 = 999000000 ∧ ¬ Ahead config 1000000000 := by
  refine ⟨rfl, by decide, fun h => ?_⟩
  have hafter := h.shutdown_after
  revert hafter
  decide

end ConfigLoader

end TinyKv
