import TinyKv.Foundation.Machine
import TinyKv.Net.ConnectionReading

/-!
# The life of one connection

A session is a connection from its registration on, with the store and the state of its
reactor. Its events are the ready events of its descriptor, the start of draining, a
forced close, and the end of the event loop by an exception. A failed change of the
poller's interests is such an exception.
-/

namespace TinyKv

open Foundation

variable {Q : ExpirationQueue}

/-- The call of the poller at the end of `RefreshConnectionInterest`; `false` is the
exception the call can end with. -/
def Connection.register (refreshed : Connection × Option IoEvent) (modityOk : Bool) :
    Bool × Connection :=
  match refreshed with
  | (conn, none) => (true, conn)
  | (conn, some desired) =>
      if modityOk then (true, { conn with registeredEvents := desired }) else (false, conn)

/-- A connection as `AddClientInLoop` leaves it. -/
def Connection.accepted (fd : Int) : Connection :=
  { fd, registeredEvents := { read := true } }

theorem Connection.register_conn (refreshed : Connection × Option IoEvent) (modityOk : Bool) :
    ∃ events, (Connection.register refreshed modityOk).2 =
      { refreshed.1 with registeredEvents := events } := by
  obtain ⟨conn, request⟩ := refreshed
  cases request with
  | none => exact ⟨conn.registeredEvents, rfl⟩
  | some desired =>
      cases modityOk with
      | true => exact ⟨desired, rfl⟩
      | false => exact ⟨conn.registeredEvents, rfl⟩

/-- A connection with the state of its reactor and the store. -/
structure Session (Q : ExpirationQueue) where
  phase : ServerState
  store : Store Q
  conn : Connection

/-- Why `ForceCloseAllConnections` is called. -/
inductive ForcedClose where
  | deadline
  | forceStop
deriving DecidableEq, Repr

/-- The cause the connections are closed with. -/
def ForcedClose.cause : ForcedClose → CloseCause
  | .deadline => .deadline
  | .forceStop => .forceStop

/-- What can happen to a connection. -/
inductive SessionEvent (Q : ExpirationQueue) where
  | ready (events : IoEvent) (input : IoInput Q) (modityOk : Bool)
  | beginDrain (modityOk : Bool)
  | forceClose (reason : ForcedClose)
  | abort

namespace Session

/-- The session of a newly accepted connection. -/
def start (fd : Int) (store : Store Q) : Session Q := ⟨.running, store, .accepted fd⟩

/-- The session after a handler, when the poller has been called. -/
def refreshed (s : Session Q) (store : Store Q) (outcome : Bool × Connection) : Session Q :=
  { phase := if outcome.1 then s.phase else .stopped, store, conn := outcome.2 }

/-- One event of a session. -/
def step (o : NetworkOptions) (s : Session Q) : SessionEvent Q → Session Q
  | .ready events input modityOk =>
      if s.phase = .stopped then
        s
      else
        let (handled, store) := s.conn.handleEvent o s.phase events input s.store
        s.refreshed store (Connection.register handled modityOk)
  | .beginDrain modityOk =>
      if s.phase = .running then
        { s with phase := .draining }.refreshed s.store
          (Connection.register (s.conn.beginDrain o) modityOk)
      else
        s
  | .forceClose reason =>
      if s.phase = .stopped then
        s
      else
        { s with phase := .stopped, conn := s.conn.markClosed reason.cause }
  | .abort => { s with phase := .stopped }

/-- The sessions under given options as a machine. -/
def machine (o : NetworkOptions) : Machine (Session Q) (SessionEvent Q) := ⟨step o⟩

/-- The session after a run of events. -/
def run (o : NetworkOptions) (s : Session Q) (events : List (SessionEvent Q)) : Session Q :=
  (machine o).run s events

/-- A ready event is handled and the interests are registered, unless the reactor has
stopped. -/
theorem step_ready {s : Session Q} (h : s.phase ≠ .stopped) (o : NetworkOptions)
    (events : IoEvent) (input : IoInput Q) (modityOk : Bool) :
    ∃ registered, (s.step o (.ready events input modityOk)).conn =
      { (s.conn.handleEvent o s.phase events input s.store).1.1 with
        registeredEvents := registered } := by
  obtain ⟨registered, heq⟩ :=
    Connection.register_conn (s.conn.handleEvent o s.phase events input s.store).1 modityOk
  exact ⟨registered, by simp only [step, if_neg h, refreshed, heq]⟩

/-- The start of draining in a running reactor. -/
theorem step_beginDrain {s : Session Q} (h : s.phase = .running) (o : NetworkOptions)
    (modityOk : Bool) :
    ∃ registered, (s.step o (.beginDrain modityOk)).conn =
      { (s.conn.beginDrain o).1 with registeredEvents := registered } := by
  obtain ⟨registered, heq⟩ := Connection.register_conn (s.conn.beginDrain o) modityOk
  exact ⟨registered, by simp only [step, if_pos h, refreshed, heq]⟩

/-- What a step does to the connection: nothing, a forced close, the start of draining,
or the handling of a ready event, the last two followed by a registration. -/
theorem step_conn (o : NetworkOptions) (s : Session Q) (event : SessionEvent Q) :
    (s.step o event).conn = s.conn ∨
    (∃ reason : ForcedClose, (s.step o event).conn = s.conn.markClosed reason.cause) ∨
    (∃ events, (s.step o event).conn =
      { (s.conn.beginDrain o).1 with registeredEvents := events }) ∨
    ∃ events input registered, s.phase ≠ .stopped ∧ (s.step o event).conn =
      { (s.conn.handleEvent o s.phase events input s.store).1.1 with
        registeredEvents := registered } := by
  cases event with
  | ready events input modityOk =>
      by_cases hstopped : s.phase = .stopped
      · exact .inl (by simp [step, hstopped])
      · obtain ⟨registered, heq⟩ := step_ready hstopped o events input modityOk
        exact .inr (.inr (.inr ⟨events, input, registered, hstopped, heq⟩))
  | beginDrain modityOk =>
      by_cases hrunning : s.phase = .running
      · exact .inr (.inr (.inl (step_beginDrain hrunning o modityOk)))
      · exact .inl (by simp [step, hrunning])
  | forceClose reason =>
      by_cases hstopped : s.phase = .stopped
      · exact .inl (by simp [step, hstopped])
      · exact .inr (.inl ⟨reason, by simp [step, hstopped]⟩)
  | abort => exact .inl rfl

/-- The first ready event of a session. -/
theorem conn_run_ready (o : NetworkOptions) (fd : Int) (store : Store Q) (events : IoEvent)
    (input : IoInput Q) (modityOk : Bool) :
    ((start fd store).run o [.ready events input modityOk]).conn =
      (Connection.register ((Connection.accepted fd).handleEvent o .running events input store).1
        modityOk).2 := rfl

/-- A step that leaves the reactor running is the handling of a ready event. -/
theorem step_running {o : NetworkOptions} {s : Session Q} {event : SessionEvent Q}
    (h : (s.step o event).phase = .running) :
    s.phase = .running ∧ ∃ events input modityOk registered,
      event = .ready events input modityOk ∧
      (s.step o event).conn =
        { (s.conn.handleEvent o .running events input s.store).1.1 with
          registeredEvents := registered } := by
  cases event with
  | ready events input modityOk =>
      by_cases hstopped : s.phase = .stopped
      · simp [step, hstopped] at h
      obtain ⟨registered, heq⟩ := step_ready hstopped o events input modityOk
      have hrunning : s.phase = .running := by
        simp only [step, if_neg hstopped, refreshed] at h
        split at h
        · exact h
        · cases h
      exact ⟨hrunning, events, input, modityOk, registered, rfl, hrunning ▸ heq⟩
  | beginDrain modityOk =>
      exfalso
      simp only [step] at h
      split at h
      · rw [refreshed] at h
        split at h <;> cases h
      · contradiction
  | forceClose reason =>
      exfalso
      simp only [step] at h
      split at h
      · simp_all
      · cases h
  | abort => cases h

/-! ### A session to compute with -/

/-- A new connection of a server with an empty store. -/
def fresh : Session sortedExpirations := start 5 Store.empty

/-- An environment in which nobody else uses the store. -/
def quiet : Nat → Ambient sortedExpirations := fun _ => ⟨id, 0, [], 0⟩

/-- The kernel has the given bytes ready and takes no output. -/
def reading (bytes : Bytes) : IoInput sortedExpirations :=
  ⟨.returned (.bytes bytes), .returned .wouldBlock, quiet⟩

/-- The descriptor is readable and the kernel has the given bytes ready. -/
def readable (bytes : Bytes) : SessionEvent sortedExpirations :=
  .ready { read := true } (reading bytes) true

end Session

end TinyKv
