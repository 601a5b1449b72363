import Mathlib.Logic.Function.Basic
import TinyKv.Net.ReactorInvariants
import TinyKv.Net.WakeupChannel

/-!
# Control requests

The calls of other threads on a running reactor, with the wakeup channel between them. A
producer updates the control members under `m_controlMutex`, and notifies afterwards; the
event loop drains the channel, one `read` after the other, and takes the control members
afterwards. All these steps interleave.

What the event loop does after it has taken the control members belongs to the step that
takes them, as it reads them no more in this iteration.
-/

namespace TinyKv

open Foundation

variable {Q : ExpirationQueue}

namespace SubReactor

/-- The members under `m_controlMutex`, the deadline apart. -/
def control (r : SubReactor Q) : List Int × Bool × Bool :=
  (r.pendingClients, r.stopRequested, r.forceStopRequested)

/-- The iteration calls `ProcessControlRequests`. -/
def takesControl (input : LoopInput Q) (r : SubReactor Q) : Bool :=
  match input.ready with
  | some ready => r.controlEventReceived ready && input.drainOk
  | none => false

/-- The control members after `ProcessControlRequests` has taken them. -/
def takenControl (r : SubReactor Q) : List Int × Bool × Bool :=
  ([], r.stopRequested, r.forceStopRequested)

theorem control_addClients (fds : List Int) (addOk : Nat → Bool) (r : SubReactor Q) :
    (addClients addOk fds r).control = r.control := by
  obtain ⟨poller, clients, calls, heq⟩ := addClients_eq fds addOk r
  rw [heq]
  rfl

theorem control_handleReady (o : NetworkOptions) (io : Nat → IoInput Q) (modityOk : Nat → Bool)
    (ready : List ReadyEvent) (r : SubReactor Q) :
    (handleReady o io modityOk ready r).2.control = r.control := by
  obtain ⟨poller, clients, store, heq⟩ := handleReady_eq o io modityOk ready r
  rw [heq]
  rfl

theorem control_checkShutdownProgress (r : SubReactor Q) (input : LoopInput Q) :
    (r.checkShutdownProgress input).control = r.control := by
  have houtcome := r.checkShutdownProgress_outcome input
  generalize r.checkShutdownProgress input = after at houtcome ⊢
  cases houtcome with
  | serving hstate => rfl
  | drained hstate hempty => rfl
  | late hstate hclients hlate => rfl
  | waiting hstate hclients hearly => rfl

theorem control_beginGracefulShutdown (o : NetworkOptions) (input : LoopInput Q)
    (deadline : TimePoint) (r : SubReactor Q) :
    (beginGracefulShutdown o input deadline r).2.control = r.control := by
  have hdrain : (drainAll o input deadline r).2.control = r.control := by
    obtain ⟨poller, clients, heq⟩ := drainAll_eq o input deadline r
    rw [heq]
    rfl
  have houtcome := beginGracefulShutdown_outcome o input deadline r
  generalize beginGracefulShutdown o input deadline r = result at houtcome ⊢
  cases houtcome with
  | repeated hstate => rfl
  | failed hstate hdrained =>
      rw [hdrained] at hdrain
      exact hdrain
  | finished hstate hdrained hempty =>
      rw [hdrained] at hdrain
      exact hdrain
  | begun hstate hdrained hclients =>
      rw [hdrained] at hdrain
      exact hdrain

theorem control_processControlRequests (o : NetworkOptions) (input : LoopInput Q)
    (r : SubReactor Q) : (processControlRequests o input r).2.control = r.takenControl := by
  unfold processControlRequests
  simp only
  split
  · rfl
  split
  · exact control_beginGracefulShutdown o input _ { r with pendingClients := [] }
  · exact control_addClients ..

/-- What one iteration of the event loop does to the control members. -/
theorem control_iterate {r : SubReactor Q} (hlive : ¬ (r.state = .created ∨ r.state = .stopped))
    (o : NetworkOptions) (input : LoopInput Q) :
    (r.iterate o input).control =
      if r.takesControl input then r.takenControl else r.control := by
  have hmid {ready : List ReadyEvent} {mid : SubReactor Q} (hready : input.ready = some ready)
      (hmid : AfterControl o input ready r mid) :
      mid.control = if r.takesControl input then r.takenControl else r.control := by
    obtain ⟨hcontrol, rfl⟩ | ⟨hcontrol, hdrain, hprocess⟩ := hmid
    · simp [takesControl, hready, hcontrol]
    · have htaken := control_processControlRequests o input r
      rw [hprocess] at htaken
      simpa [takesControl, hready, hcontrol, hdrain] using htaken
  have houtcome := iteration_outcome o input r
  rw [iterate, if_neg hlive]
  generalize r.iteration o input = result at houtcome ⊢
  cases houtcome with
  | waitFailed hready =>
      simp only [takesControl, hready]
      rfl
  | drainFailed hready hcontrol hdrain =>
      simp only [takesControl, hready, hdrain, Bool.and_false, Bool.false_eq_true, if_false]
      rfl
  | controlFailed hready hcontrol hdrain hprocess =>
      have htaken := control_processControlRequests o input r
      rw [hprocess] at htaken
      simp only [takesControl, hready, hcontrol, hdrain, Bool.and_self, if_true]
      exact htaken
  | stopped hready hafter hstate => exact hmid hready hafter
  | @eventFailed ready mid handled hready hafter hstate hhandled =>
      have hsame := control_handleReady o input.io input.modityOk ready mid
      rw [hhandled] at hsame
      exact hsame.trans (hmid hready hafter)
  | @handled ready mid handled hready hafter hstate hhandled =>
      have hsame := control_handleReady o input.io input.modityOk ready mid
      rw [hhandled] at hsame
      exact (control_checkShutdownProgress _ _).trans (hsame.trans (hmid hready hafter))

end SubReactor

/-- Where the event loop is in an iteration with a control event, whose result of `Wait`
is kept; within `Drain`, whether it has taken bytes out of the channel. -/
inductive LoopPoint where
  | wait
  | drain (ready : List ReadyEvent) (swallowed : Bool)
  | process (ready : List ReadyEvent)

/-- The result of `Wait` that `Drain` and `ProcessControlRequests` answer. -/
def LoopPoint.ready? : LoopPoint → Option (List ReadyEvent)
  | wait => none
  | drain ready _ => some ready
  | process ready => some ready

/-- `Drain` has taken bytes, or has ended, and the control members are not taken yet. -/
def LoopPoint.drained : LoopPoint → Bool
  | wait => false
  | drain _ swallowed => swallowed
  | process _ => true

/-- A reactor with its wakeup channel, and for each producer whether it has updated the
control members and has not notified yet. Moreover the clients that have been enqueued,
the queues that `ProcessControlRequests` has taken, and whether it has seen the stop
requests since the last call of each. -/
structure ControlRequests (ι : Type*) (Q : ExpirationQueue) where
  reactor : SubReactor Q
  channel : WakeupChannel
  notifying : ι → Bool
  point : LoopPoint := .wait
  enqueued : List Int := []
  taken : List (List Int) := []
  stopSeen : Bool := false
  forceStopSeen : Bool := false

/-- An answer of `read` in `Drain`; the channel has bytes left or is empty. -/
inductive ReadResult where
  | returned
  | interrupted
  | failed

namespace ControlRequests

variable {ι : Type*}

section Steps

variable [DecidableEq ι]

/-- A producer has updated the control members. -/
def updated (s : ControlRequests ι Q) (producer : ι) (reactor : SubReactor Q) :
    ControlRequests ι Q :=
  { s with reactor, notifying := Function.update s.notifying producer true }

/-- `EnqueClient` up to its notification. -/
def enqueClient (s : ControlRequests ι Q) (producer : ι) (fd : Int) : ControlRequests ι Q :=
  if fd < 0 ∨ (s.reactor.stopRequested || s.reactor.forceStopRequested) = true then
    s
  else
    { s.updated producer (s.reactor.enqueClient fd) with enqueued := s.enqueued ++ [fd] }

/-- `Stop` up to its notification. -/
def stop (s : ControlRequests ι Q) (producer : ι) (deadline : TimePoint) :
    ControlRequests ι Q :=
  { s.updated producer (s.reactor.stop deadline) with stopSeen := false }

/-- `ForceStop` up to its notification. -/
def forceStop (s : ControlRequests ι Q) (producer : ι) : ControlRequests ι Q :=
  { s.updated producer s.reactor.forceStop with forceStopSeen := false }

/-- The notification of a producer. -/
def notify (s : ControlRequests ι Q) (producer : ι) : ControlRequests ι Q :=
  { s with
    channel := s.channel.notify
    notifying := Function.update s.notifying producer false }

/-- `Wait`; an iteration without a control event goes on to its end. -/
def wait (o : NetworkOptions) (s : ControlRequests ι Q) (input : LoopInput Q) :
    ControlRequests ι Q :=
  match input.ready with
  | none => { s with reactor := s.reactor.iterate o input }
  | some ready =>
      if s.reactor.controlEventReceived ready then
        { s with point := .drain ready false }
      else
        { s with reactor := s.reactor.iterate o input }

/-- One `read` of `Drain`, which throws when it fails and ends when nothing is left. -/
def read (o : NetworkOptions) (s : ControlRequests ι Q) (ready : List ReadyEvent)
    (result : ReadResult) (input : LoopInput Q) : ControlRequests ι Q :=
  match result with
  | .interrupted => s
  | .failed =>
      { s with
        reactor := s.reactor.iterate o { input with ready := some ready, drainOk := false }
        point := .wait }
  | .returned =>
      if s.channel.bytes = 0 then
        { s with point := .process ready }
      else
        { s with channel := s.channel.read, point := .drain ready true }

/-- `ProcessControlRequests`, and the iteration after it. -/
def process (o : NetworkOptions) (s : ControlRequests ι Q) (ready : List ReadyEvent)
    (input : LoopInput Q) : ControlRequests ι Q :=
  { s with
    reactor := s.reactor.iterate o { input with ready := some ready, drainOk := true }
    point := .wait
    taken := s.taken ++ [s.reactor.pendingClients]
    stopSeen := s.reactor.stopRequested
    forceStopSeen := s.reactor.forceStopRequested }

/-- The next step of the event loop, unless it has not been started or has ended. -/
def loop (o : NetworkOptions) (s : ControlRequests ι Q) (result : ReadResult)
    (input : LoopInput Q) : ControlRequests ι Q :=
  if s.reactor.state = .created ∨ s.reactor.state = .stopped then
    s
  else
    match s.point with
    | .wait => s.wait o input
    | .drain ready _ => s.read o ready result input
    | .process ready => s.process o ready input

/-- The steps of the producers and of the event loop. A producer that is to notify does
this before its next call. -/
inductive Action (ι : Type*) (Q : ExpirationQueue) where
  | start (addOk threadOk : Bool)
  | enqueClient (producer : ι) (fd : Int)
  | stop (producer : ι) (deadline : TimePoint)
  | forceStop (producer : ι)
  | notify (producer : ι)
  | loop (result : ReadResult) (input : LoopInput Q)

/-- One step. -/
def step (o : NetworkOptions) (s : ControlRequests ι Q) : Action ι Q → ControlRequests ι Q
  | .start addOk threadOk => { s with reactor := s.reactor.start addOk threadOk }
  | .enqueClient producer fd => if s.notifying producer then s else s.enqueClient producer fd
  | .stop producer deadline => if s.notifying producer then s else s.stop producer deadline
  | .forceStop producer => if s.notifying producer then s else s.forceStop producer
  | .notify producer => if s.notifying producer then s.notify producer else s
  | .loop result input => s.loop o result input

/-- The interleavings under given options. -/
def machine (o : NetworkOptions) : Machine (ControlRequests ι Q) (Action ι Q) := ⟨step o⟩

/-- The state after a run of steps. -/
def run (o : NetworkOptions) (s : ControlRequests ι Q) (actions : List (Action ι Q)) :
    ControlRequests ι Q :=
  (machine o).run s actions

end Steps

/-- A reactor as its constructor leaves it, with its channel. -/
def created (backend : PollerBackend) (controlFd : Int) (store : Store Q)
    (channel : WakeupChannel) : ControlRequests ι Q where
  reactor := SubReactor.created backend controlFd store
  channel
  notifying _ := false

/-! ### The invariant -/

/-- A client waits in the queue, or a stop request has not been seen. -/
def Unserved (s : ControlRequests ι Q) : Prop :=
  s.reactor.pendingClients ≠ [] ∨
    (s.reactor.stopRequested = true ∧ s.stopSeen = false) ∨
    (s.reactor.forceStopRequested = true ∧ s.forceStopSeen = false)

/-- The channel has a byte, a producer is about to notify, or the event loop is between
the draining and the taking. -/
def Announced (s : ControlRequests ι Q) : Prop :=
  0 < s.channel.bytes ∨ (∃ producer, s.notifying producer = true) ∨ s.point.drained = true

/-- No request is lost. -/
structure Kept (s : ControlRequests ι Q) : Prop where
  tidy : s.reactor.Tidy
  announced : s.reactor.state ≠ .stopped → s.Unserved → s.Announced
  clients : s.enqueued = s.taken.flatten ++ s.reactor.pendingClients
  received : ∀ ready, s.point.ready? = some ready →
    s.reactor.controlEventReceived ready = true

theorem kept_created (backend : PollerBackend) (controlFd : Int) (store : Store Q)
    (channel : WakeupChannel) :
    (created backend controlFd store channel : ControlRequests ι Q).Kept where
  tidy := SubReactor.tidy_created backend controlFd store
  announced _ hunserved := by
    obtain hpending | ⟨hstop, -⟩ | ⟨hforce, -⟩ := hunserved
    · exact absurd rfl hpending
    · cases hstop
    · cases hforce
  clients := rfl
  received ready hpoint := by cases hpoint

theorem Kept.start {s : ControlRequests ι Q} (h : s.Kept) (o : NetworkOptions)
    (addOk threadOk : Bool) :
    ({ s with reactor := s.reactor.start addOk threadOk } : ControlRequests ι Q).Kept := by
  have htidy := h.tidy.step o (.start addOk threadOk)
  change (s.reactor.start addOk threadOk).Tidy at htidy
  by_cases hcreated : s.reactor.publishedState = .created
  swap
  · rw [SubReactor.start_of_started hcreated]
    exact h
  have hlive : s.reactor.state ≠ .stopped := by
    rw [← h.tidy.published, hcreated]
    nofun
  have hstart : (s.reactor.start addOk threadOk).control = s.reactor.control ∧
      (s.reactor.start addOk threadOk).controlFd = s.reactor.controlFd := by
    have houtcome := s.reactor.start_outcome addOk threadOk
    generalize s.reactor.start addOk threadOk = after at houtcome ⊢
    cases houtcome with
    | refused hstarted => exact ⟨rfl, rfl⟩
    | unregistered _ poller => exact ⟨rfl, rfl⟩
    | running _ poller => exact ⟨rfl, rfl⟩
    | threadless _ poller => exact ⟨rfl, rfl⟩
  generalize s.reactor.start addOk threadOk = after at htidy hstart ⊢
  obtain ⟨hcontrol, hfd⟩ := hstart
  simp only [SubReactor.control, Prod.mk.injEq] at hcontrol
  obtain ⟨hpending, hstop, hforce⟩ := hcontrol
  constructor
  · exact htidy
  · intro _ hunserved
    apply h.announced hlive
    simpa only [Unserved, hpending, hstop, hforce] using hunserved
  · rw [h.clients, hpending]
  · intro ready hpoint
    rw [SubReactor.controlEventReceived, hfd]
    exact h.received ready hpoint

/-- An iteration that does not take the control members leaves the requests as they are. -/
theorem Kept.iterate {s : ControlRequests ι Q} (h : s.Kept)
    (hlive : ¬ (s.reactor.state = .created ∨ s.reactor.state = .stopped)) (o : NetworkOptions)
    {input : LoopInput Q} (htakes : s.reactor.takesControl input = false)
    (hwait : s.point = .wait) :
    ({ s with reactor := s.reactor.iterate o input } : ControlRequests ι Q).Kept := by
  have hcontrol := SubReactor.control_iterate hlive o input
  have htidy := h.tidy.iterate o input
  rw [htakes] at hcontrol
  generalize s.reactor.iterate o input = after at hcontrol htidy ⊢
  simp only [SubReactor.control, Bool.false_eq_true, if_false, Prod.mk.injEq] at hcontrol
  obtain ⟨hpending, hstop, hforce⟩ := hcontrol
  constructor
  · exact htidy
  · intro _ hunserved
    apply h.announced fun hstopped => hlive (.inr hstopped)
    simpa only [Unserved, hpending, hstop, hforce] using hunserved
  · rw [h.clients, hpending]
  · intro ready hpoint
    rw [hwait] at hpoint
    cases hpoint

/-- `Wait` starts the draining, or the iteration takes nothing. -/
theorem Kept.wait {s : ControlRequests ι Q} (h : s.Kept)
    (hlive : ¬ (s.reactor.state = .created ∨ s.reactor.state = .stopped)) (o : NetworkOptions)
    (hwait : s.point = .wait) (input : LoopInput Q) : (s.wait o input).Kept := by
  unfold ControlRequests.wait
  cases hready : input.ready with
  | none =>
      apply h.iterate hlive o _ hwait
      simp [SubReactor.takesControl, hready]
  | some ready =>
      simp only
      split
      · next hreceived =>
        constructor
        · exact h.tidy
        · intro hstate hunserved
          obtain hbyte | hnotifying | hdrained := h.announced hstate hunserved
          · exact .inl hbyte
          · exact .inr (.inl hnotifying)
          · rw [hwait] at hdrained
            cases hdrained
        · exact h.clients
        · intro ready' hpoint
          cases hpoint
          exact hreceived
      · next hother =>
        apply h.iterate hlive o _ hwait
        simp [SubReactor.takesControl, hready, hother]

/-- When `read` fails, the event loop ends. -/
theorem iterate_of_drain_failed {r : SubReactor Q}
    (hlive : ¬ (r.state = .created ∨ r.state = .stopped)) (o : NetworkOptions)
    {input : LoopInput Q} {ready : List ReadyEvent} (hready : input.ready = some ready)
    (hreceived : r.controlEventReceived ready = true) (hdrain : input.drainOk = false) :
    r.iterate o input = r.fail := by
  have hiteration : r.iteration o input = (false, r) := by
    simp [SubReactor.iteration, hready, hreceived, hdrain]
  rw [SubReactor.iterate, if_neg hlive, hiteration]

/-- Once `Drain` has taken bytes, a request is announced by the place of the event loop. -/
theorem Kept.read {s : ControlRequests ι Q} (h : s.Kept)
    (hlive : ¬ (s.reactor.state = .created ∨ s.reactor.state = .stopped)) (o : NetworkOptions)
    {ready : List ReadyEvent} {swallowed : Bool} (hdrain : s.point = .drain ready swallowed)
    (result : ReadResult) (input : LoopInput Q) : (s.read o ready result input).Kept := by
  have hreceived : s.reactor.controlEventReceived ready = true := by
    apply h.received
    rw [hdrain]
    rfl
  cases result with
  | interrupted => exact h
  | failed =>
      have htidy := h.tidy.iterate o { input with ready := some ready, drainOk := false }
      unfold ControlRequests.read
      rw [iterate_of_drain_failed hlive o rfl hreceived rfl] at htidy ⊢
      constructor
      · exact htidy
      · exact fun hstate => absurd rfl hstate
      · exact h.clients
      · intro ready' hpoint
        cases hpoint
  | returned =>
      simp only [ControlRequests.read]
      split
      · constructor
        · exact h.tidy
        · exact fun _ _ => .inr (.inr rfl)
        · exact h.clients
        · intro ready' hpoint
          cases hpoint
          exact hreceived
      · constructor
        · exact h.tidy
        · exact fun _ _ => .inr (.inr rfl)
        · exact h.clients
        · intro ready' hpoint
          cases hpoint
          exact hreceived

/-- `ProcessControlRequests` leaves nothing in the queue, and no stop request unseen. -/
theorem process_served {s : ControlRequests ι Q} (h : s.Kept)
    (hlive : ¬ (s.reactor.state = .created ∨ s.reactor.state = .stopped)) (o : NetworkOptions)
    {ready : List ReadyEvent} (hprocess : s.point = .process ready) (input : LoopInput Q) :
    (s.process o ready input).reactor.pendingClients = [] ∧
      ¬ (s.process o ready input).Unserved := by
  have hcontrol := SubReactor.control_iterate hlive o
    { input with ready := some ready, drainOk := true }
  have hreceived : s.reactor.controlEventReceived ready = true := by
    apply h.received
    rw [hprocess]
    rfl
  have htakes : s.reactor.takesControl { input with ready := some ready, drainOk := true } =
      true := by
    simp [SubReactor.takesControl, hreceived]
  rw [htakes] at hcontrol
  simp only [SubReactor.control, SubReactor.takenControl, if_true, Prod.mk.injEq] at hcontrol
  obtain ⟨hpending, hstop, hforce⟩ := hcontrol
  refine ⟨hpending, ?_⟩
  rintro (hwaiting | ⟨hrequested, hunseen⟩ | ⟨hrequested, hunseen⟩)
  · exact hwaiting hpending
  · change (SubReactor.iterate o _ s.reactor).stopRequested = true at hrequested
    rw [hstop] at hrequested
    change s.reactor.stopRequested = false at hunseen
    rw [hunseen] at hrequested
    cases hrequested
  · change (SubReactor.iterate o _ s.reactor).forceStopRequested = true at hrequested
    rw [hforce] at hrequested
    change s.reactor.forceStopRequested = false at hunseen
    rw [hunseen] at hrequested
    cases hrequested

theorem Kept.process {s : ControlRequests ι Q} (h : s.Kept)
    (hlive : ¬ (s.reactor.state = .created ∨ s.reactor.state = .stopped)) (o : NetworkOptions)
    {ready : List ReadyEvent} (hprocess : s.point = .process ready) (input : LoopInput Q) :
    (s.process o ready input).Kept := by
  obtain ⟨hpending, hserved⟩ := process_served h hlive o hprocess input
  constructor
  · exact h.tidy.iterate o _
  · exact fun _ hunserved => absurd hunserved hserved
  · rw [hpending, List.append_nil]
    change s.enqueued = (s.taken ++ [s.reactor.pendingClients]).flatten
    rw [List.flatten_append, h.clients]
    simp
  · intro ready' hpoint
    cases hpoint

theorem Kept.loop {s : ControlRequests ι Q} (h : s.Kept) (o : NetworkOptions)
    (result : ReadResult) (input : LoopInput Q) : (s.loop o result input).Kept := by
  unfold ControlRequests.loop
  split
  · exact h
  next hlive =>
    cases hpoint : s.point with
    | wait => exact h.wait hlive o hpoint input
    | drain ready swallowed => exact h.read hlive o hpoint result input
    | process ready => exact h.process hlive o hpoint input

/-- A step of the event loop has at most one iteration of the reactor in it. -/
theorem reactor_loop (o : NetworkOptions) (s : ControlRequests ι Q) (result : ReadResult)
    (input : LoopInput Q) : (s.loop o result input).reactor = s.reactor ∨
      ∃ taken, (s.loop o result input).reactor = s.reactor.iterate o taken := by
  unfold ControlRequests.loop
  split
  · exact .inl rfl
  cases s.point with
  | wait =>
      simp only [ControlRequests.wait]
      cases input.ready with
      | none => exact .inr ⟨_, rfl⟩
      | some ready =>
          simp only
          split
          · exact .inl rfl
          · exact .inr ⟨_, rfl⟩
  | drain ready swallowed =>
      simp only [ControlRequests.read]
      cases result with
      | interrupted => exact .inl rfl
      | failed => exact .inr ⟨_, rfl⟩
      | returned =>
          simp only
          split
          · exact .inl rfl
          · exact .inl rfl
  | process ready => exact .inr ⟨_, rfl⟩

section Steps

variable [DecidableEq ι]

/-- A producer that has updated the control members is about to notify. -/
theorem Kept.enqueClient {s : ControlRequests ι Q} (h : s.Kept) (o : NetworkOptions)
    (producer : ι) (fd : Int) : (s.enqueClient producer fd).Kept := by
  have htidy := h.tidy.step o (.enqueClient fd)
  change (s.reactor.enqueClient fd).Tidy at htidy
  unfold ControlRequests.enqueClient
  split
  · exact h
  next haccepted =>
    have henqueue : s.reactor.enqueClient fd =
        { s.reactor with pendingClients := s.reactor.pendingClients ++ [fd] } := by
      rw [SubReactor.enqueClient, if_neg (fun hfd => haccepted (.inl hfd)),
        if_neg (fun hstop => haccepted (.inr hstop))]
    rw [henqueue] at htidy ⊢
    constructor
    · exact htidy
    · exact fun _ _ => .inr (.inl ⟨producer, Function.update_self ..⟩)
    · change s.enqueued ++ [fd] = s.taken.flatten ++ (s.reactor.pendingClients ++ [fd])
      rw [h.clients, List.append_assoc]
    · exact h.received

theorem Kept.stop {s : ControlRequests ι Q} (h : s.Kept) (o : NetworkOptions) (producer : ι)
    (deadline : TimePoint) : (s.stop producer deadline).Kept where
  tidy := h.tidy.step o (.stop deadline)
  announced _ _ := .inr (.inl ⟨producer, Function.update_self ..⟩)
  clients := h.clients
  received := h.received

theorem Kept.forceStop {s : ControlRequests ι Q} (h : s.Kept) (o : NetworkOptions)
    (producer : ι) : (s.forceStop producer).Kept where
  tidy := h.tidy.step o .forceStop
  announced _ _ := .inr (.inl ⟨producer, Function.update_self ..⟩)
  clients := h.clients
  received := h.received

/-- Also a dropped notification leaves a byte in the channel. -/
theorem Kept.notify {s : ControlRequests ι Q} (h : s.Kept) (producer : ι) :
    (s.notify producer).Kept where
  tidy := h.tidy
  announced _ _ := .inl s.channel.bytes_notify_pos
  clients := h.clients
  received := h.received

/-- Every step of a producer or of the event loop keeps the requests. -/
theorem Kept.step {s : ControlRequests ι Q} (h : s.Kept) (o : NetworkOptions)
    (action : Action ι Q) : (s.step o action).Kept := by
  cases action with
  | start addOk threadOk => exact h.start o addOk threadOk
  | enqueClient producer fd => exact iteInduction (fun _ => h) fun _ => h.enqueClient o producer fd
  | stop producer deadline => exact iteInduction (fun _ => h) fun _ => h.stop o producer deadline
  | forceStop producer => exact iteInduction (fun _ => h) fun _ => h.forceStop o producer
  | notify producer => exact iteInduction (fun _ => h.notify producer) fun _ => h
  | loop result input => exact h.loop o result input

/-- The reactor among its producers takes the steps of a reactor. -/
theorem reactor_step (o : NetworkOptions) (s : ControlRequests ι Q) (action : Action ι Q) :
    ∃ steps, (s.step o action).reactor = s.reactor.run o steps := by
  cases action with
  | start addOk threadOk => exact ⟨[.start addOk threadOk], rfl⟩
  | enqueClient producer fd =>
      simp only [ControlRequests.step, ControlRequests.enqueClient]
      split
      · exact ⟨[], rfl⟩
      split
      · exact ⟨[], rfl⟩
      · exact ⟨[.enqueClient fd], rfl⟩
  | stop producer deadline =>
      simp only [ControlRequests.step]
      split
      · exact ⟨[], rfl⟩
      · exact ⟨[.stop deadline], rfl⟩
  | forceStop producer =>
      simp only [ControlRequests.step]
      split
      · exact ⟨[], rfl⟩
      · exact ⟨[.forceStop], rfl⟩
  | notify producer =>
      simp only [ControlRequests.step]
      split
      · exact ⟨[], rfl⟩
      · exact ⟨[], rfl⟩
  | loop result input =>
      obtain hsame | ⟨taken, hiterate⟩ := reactor_loop o s result input
      · exact ⟨[], hsame⟩
      · exact ⟨[.iterate taken], hiterate⟩

/-- No control request is lost, whatever the interleaving. While a client waits in the
queue, or a stop request has not been seen, the wakeup channel holds a byte, or a producer
is about to notify, or the event loop is on its way from a `read` of `Drain` to
`ProcessControlRequests`. The clients taken so far and those in the queue are the enqueued
ones, each once. Each `ProcessControlRequests` takes all that is there. -/
theorem control_requests_kept (o : NetworkOptions) (backend : PollerBackend) (controlFd : Int)
    (store : Store Q) (channel : WakeupChannel) (actions : List (Action ι Q)) :
    let s := (created backend controlFd store channel : ControlRequests ι Q).run o actions
    (s.reactor.state ≠ .stopped → s.Unserved → s.Announced) ∧
    s.enqueued = s.taken.flatten ++ s.reactor.pendingClients ∧
    (∀ ready result input, ¬ (s.reactor.state = .created ∨ s.reactor.state = .stopped) →
      s.point = .process ready →
        (s.loop o result input).taken = s.taken ++ [s.reactor.pendingClients] ∧
        (s.loop o result input).reactor.pendingClients = [] ∧
        ¬ (s.loop o result input).Unserved) ∧
    ∃ steps, s.reactor = (SubReactor.created backend controlFd store).run o steps := by
  intro s
  have hkept : s.Kept := (machine o).run_invariant (fun _ h action _ => h.step o action)
    (kept_created backend controlFd store channel)
  refine ⟨hkept.announced, hkept.clients, fun ready result input hlive hprocess => ?_, ?_⟩
  · have hloop : s.loop o result input = s.process o ready input := by
      rw [ControlRequests.loop, if_neg hlive, hprocess]
    rw [hloop]
    exact ⟨rfl, process_served hkept hlive o hprocess input⟩
  · apply (machine o).run_simulated (SubReactor.machine o)
      (R := fun (s : ControlRequests ι Q) r => s.reactor = r) _ rfl
    rintro s _ rfl action
    exact reactor_step o s action

end Steps

end ControlRequests

end TinyKv
