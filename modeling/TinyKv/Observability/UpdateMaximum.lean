import Mathlib.Order.Std
import TinyKv.Foundation.MaximumRegister
import TinyKv.Observability.LatencyHistogram

/-!
# The maxima of the server metrics

`UpdateMaximum` raises an atomic 64-bit counter to a candidate. `ObservePendingWriteBytes`
is a call of it, and `RecordCommandLatency` makes one between its other steps. Every `load` and
every `compare_exchange_weak` is one step of its own.
-/

namespace TinyKv

open Foundation

/-! ### The maximum of the latencies -/

/-- The call of `UpdateMaximum` that is in progress or to come in a call of
`RecordCommandLatency`. -/
def Recording.raise (r : Recording) : Option (RaiseCall Nat) :=
  match r.point with
  | .addTotal => some { candidate := r.latencyNs }
  | .loadMaximum => some { candidate := r.latencyNs }
  | .exchangeMaximum current => some { candidate := r.latencyNs, point := .exchange current }
  | .addBucket => none

namespace LatencyHistogram

variable {ι : Type} [DecidableEq ι]

/-- What the histogram does to `m_commandLatencyMaximumNanoseconds`. -/
def register (h : LatencyHistogram ι) : MaximumRegister ι Nat where
  value := h.maximum
  calls thread := (h.recording.lookup thread).bind Recording.raise
  candidates := h.started.map Int.toNat

theorem bind_insert (m : KeyedMap ι Recording) (thread : ι) (r : Recording) :
    (fun other => ((m.insert thread r).lookup other).bind Recording.raise) =
      Function.update (fun other => (m.lookup other).bind Recording.raise) thread r.raise := by
  ext1 other
  rw [KeyedMap.lookup_insert_eq, Function.update_apply]
  split
  next heq => rfl
  next hne => rfl

theorem bind_erase (m : KeyedMap ι Recording) {thread : ι} {r : Recording}
    (hlook : m.lookup thread = some r) (hraise : r.raise = none) :
    (fun other => ((m.erase thread).lookup other).bind Recording.raise) =
      fun other => (m.lookup other).bind Recording.raise := by
  ext1 other
  rw [KeyedMap.lookup_erase_eq]
  split
  next heq =>
    rw [heq, hlook]
    exact hraise.symm
  next hne => rfl

/-- Where the call goes on is decided by the same comparison. -/
theorem raise_compareMaximum (latencyNs current : Nat) (seen : Bool) :
    (⟨latencyNs, compareMaximum latencyNs current, seen⟩ : Recording).raise =
      RaiseCall.compare latencyNs current := by
  unfold compareMaximum RaiseCall.compare
  split
  next hlt => rfl
  next hle => rfl

/-- A call has moved on to a point of `UpdateMaximum`. -/
theorem register_insert (h : LatencyHistogram ι) (thread : ι) (r : Recording)
    (total maximum : Nat) :
    ({ h with total, maximum, recording := h.recording.insert thread r } :
      LatencyHistogram ι).register =
        { h.register with
          value := maximum
          calls := Function.update h.register.calls thread r.raise } := by
  simp only [register, bind_insert]

theorem run_advance {h : LatencyHistogram ι} {thread : ι} {call : RaiseCall Nat}
    (hcall : h.register.calls thread = some call) (spurious : Bool) :
    MaximumRegister.machine.run h.register [.advance thread spurious] =
      { h.register with
        value := (call.step h.maximum spurious).1
        calls := Function.update h.register.calls thread (call.step h.maximum spurious).2 } := by
  simp only [Machine.run_cons, Machine.run_nil, MaximumRegister.machine, MaximumRegister.step,
    hcall]
  rfl

theorem register_record (h : LatencyHistogram ι) (thread : ι) (spurious : Bool) :
    ∃ events,
      (h.record thread spurious).register = MaximumRegister.machine.run h.register events := by
  unfold record
  cases hlook : h.recording.lookup thread with
  | none => exact ⟨[], rfl⟩
  | some r =>
      have hcall : h.register.calls thread = r.raise := by
        simp only [register, hlook]
        rfl
      obtain ⟨latencyNs, point, seen⟩ := r
      cases point with
      | addTotal =>
          -- the call of `UpdateMaximum` is still to come
          refine ⟨[], (register_insert ..).trans ?_⟩
          have hsame := Function.update_eq_self thread h.register.calls
          rw [hcall] at hsame
          exact congrArg (fun calls => { h.register with calls }) hsame
      | loadMaximum =>
          refine ⟨[.advance thread spurious], (register_insert ..).trans ?_⟩
          rw [run_advance hcall, raise_compareMaximum]
          rfl
      | exchangeMaximum current =>
          refine ⟨[.advance thread spurious], ?_⟩
          rw [run_advance hcall]
          simp only [RaiseCall.step]
          split
          next hsucceeds => exact register_insert ..
          next hfails =>
            rw [← raise_compareMaximum latencyNs h.maximum seen]
            exact register_insert ..
      | addBucket =>
          -- it has returned
          refine ⟨[], ?_⟩
          simp only [addBucket, register, bind_erase h.recording hlook rfl]
          rfl

theorem register_load (h : LatencyHistogram ι) : h.load.register = h.register := by
  have hseen (thread : ι) :
      ((KeyedMap.mapValues (fun r => { r with seen := true }) h.recording).lookup
        thread).bind Recording.raise = (h.recording.lookup thread).bind Recording.raise := by
    rw [KeyedMap.lookup_mapValues_eq]
    cases h.recording.lookup thread with
    | none => rfl
    | some r => rfl
  unfold load
  split
  · simp only [register, hseen]
  · rfl
  · rfl
  · split
    · rfl
    · rfl

/-- A step of the histogram is a run of the register. -/
theorem register_step (h : LatencyHistogram ι) (action : Action ι) :
    ∃ events, (h.step action).register = MaximumRegister.machine.run h.register events := by
  cases action with
  | beginRecord thread latency =>
      simp only [step]
      cases hlook : h.recording.lookup thread with
      | some r => exact ⟨[], rfl⟩
      | none =>
          refine ⟨[.begin thread latency.toNat], ?_⟩
          have hidle : h.register.calls thread = none := by
            simp only [register, hlook]
            rfl
          simp only [Machine.run_cons, Machine.run_nil, MaximumRegister.machine,
            MaximumRegister.step, hidle]
          simp only [beginRecord, register, bind_insert, List.map_append]
          rfl
  | record thread spurious => exact register_record h thread spurious
  | load => exact ⟨[], register_load h⟩

end LatencyHistogram

/-! ### The server metrics -/

/-- `m_maximumPendingWriteBytes` and the counters of the latencies. -/
structure ServerMaxima (ι : Type) where
  pendingWriteBytes : MaximumRegister ι UInt64 := .initially 0
  latencies : LatencyHistogram ι := {}

namespace ServerMaxima

scoped instance : Std.LawfulOrderLeftLeaningMax UInt64 where
  max_eq_left a b h := by
    change (if a ≤ b then b else a) = a
    split
    next hle => exact Std.le_antisymm h hle
    next hlt => rfl
  max_eq_right a b h := by
    change (if a ≤ b then b else a) = b
    exact if_pos (Std.le_of_not_ge h)

scoped instance : LinearOrder UInt64 := .ofStd UInt64

variable {ι : Type} [DecidableEq ι]

/-- A call of `UpdateMaximum` begins; its loop is that of a `RaiseCall`. -/
def updateMaximum (thread : ι) (candidate : UInt64) : MaximumRegister.Event ι UInt64 :=
  .begin thread candidate

/-- The steps of `ObservePendingWriteBytes`, whose `std::size_t` has 64 bits, and those of the
latencies. -/
inductive Action (ι : Type) where
  | observePendingWriteBytes (thread : ι) (bytes : UInt64)
  | advance (thread : ι) (spurious : Bool)
  | latency (action : LatencyHistogram.Action ι)

def step (m : ServerMaxima ι) : Action ι → ServerMaxima ι
  | .observePendingWriteBytes thread bytes =>
      { m with pendingWriteBytes := m.pendingWriteBytes.step (updateMaximum thread bytes) }
  | .advance thread spurious =>
      { m with pendingWriteBytes := m.pendingWriteBytes.step (.advance thread spurious) }
  | .latency action => { m with latencies := m.latencies.step action }

/-- The interleavings. -/
def machine : Machine (ServerMaxima ι) (Action ι) := ⟨step⟩

/-- The two maxima. -/
def values (m : ServerMaxima ι) : UInt64 × Nat :=
  (m.pendingWriteBytes.value, m.latencies.maximum)

/-- Both maxima have been raised from zero. -/
structure Raised (m : ServerMaxima ι) : Prop where
  pendingWriteBytes : MaximumRegister.Raised 0 m.pendingWriteBytes
  latencies : MaximumRegister.Raised 0 m.latencies.register

theorem Raised.step {m : ServerMaxima ι} (h : m.Raised) (action : Action ι) :
    m.values ≤ (m.step action).values ∧ (m.step action).Raised := by
  cases action with
  | observePendingWriteBytes thread bytes =>
      obtain ⟨hle, hraised⟩ := h.pendingWriteBytes.step (updateMaximum thread bytes)
      exact ⟨⟨hle, le_rfl⟩, hraised, h.latencies⟩
  | advance thread spurious =>
      obtain ⟨hle, hraised⟩ := h.pendingWriteBytes.step (.advance thread spurious)
      exact ⟨⟨hle, le_rfl⟩, hraised, h.latencies⟩
  | latency action =>
      obtain ⟨events, hevents⟩ := m.latencies.register_step action
      have hle := h.latencies.value_le_run events
      have hraised := h.latencies.run events
      rw [← hevents] at hle hraised
      exact ⟨⟨le_rfl, hle⟩, h.pendingWriteBytes, hraised⟩

end ServerMaxima

end TinyKv
