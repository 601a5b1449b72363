import TinyKv.Net.RunReturns
import TinyKv.Net.SweeperThread

/-!
# The server with its sweeper

The thread in `Run` calls `StartSweeperThread` after the sub reactors have been started, and
`StopSweeperThread` at its end: in the `catch` clause before `ForceStop`, otherwise before it
joins the sub reactors. The second call waits for the sweeper. Here the server and the sweeper
are put together, so that the steps of all their threads interleave: at these two places the
thread in `Run` takes the steps of the call, and goes on when the call has returned.
-/

namespace TinyKv

open Foundation

variable {Q : ExpirationQueue}

/-- A server and its sweeper. `sweeperStopped` tells that the call of `StopSweeperThread` at
the end of `Run` has returned. -/
structure SweptServer (Q : ExpirationQueue) where
  server : TcpServer Q
  sweeper : SweeperThread
  sweeperStopped : Bool := false

namespace SweptServer

/-- `Run` is at its call of `StartSweeperThread`. -/
def starting (s : SweptServer Q) : Bool :=
  match s.server.point with
  | .startSubReactors next => s.server.subReactors.length ≤ next
  | _ => false

/-- `Run` is at its call of `StopSweeperThread`, in the `catch` clause or after the loop. -/
def stopping (s : SweptServer Q) : Bool :=
  match s.server.point with
  | .handleException _ | .joinSubReactors => !s.sweeperStopped
  | _ => false

/-- A step of `StartSweeperThread`, which does nothing without an interval. It has thrown
unless it returns from the assignment of the thread object. -/
def startSweeperThread (c : ServerSetup) (input : RunInput) (s : SweptServer Q) :
    SweptServer Q :=
  if s.sweeper.call = .between then
    if 0 < s.sweeper.interval then
      { s with sweeper := s.sweeper.step .start }
    else
      { s with server := s.server.runStep c { input with sweeperOk := true } }
  else
    let sweeper := s.sweeper.server input.sweeperOk
    if sweeper.call = .between then
      let sweeperOk : Bool := s.sweeper.call = .startAssign
      { s with server := s.server.runStep c { input with sweeperOk }, sweeper }
    else
      { s with sweeper }

/-- A step of `StopSweeperThread`. -/
def stopSweeperThread (s : SweptServer Q) : SweptServer Q :=
  if s.sweeper.call = .between then
    { s with sweeper := s.sweeper.step .stop }
  else
    let sweeper := s.sweeper.server true
    { s with sweeper, sweeperStopped := sweeper.call = .between }

/-- One step of the thread in `Run`. -/
def runStep (c : ServerSetup) (input : RunInput) (s : SweptServer Q) : SweptServer Q :=
  if s.starting then
    s.startSweeperThread c input
  else if s.stopping then
    s.stopSweeperThread
  else
    { s with server := s.server.runStep c input }

/-- The steps of the server, where the creation of the sweeper may fail, and those of the
sweeper, whose waits may end and whose sweeps may leave expired entries. -/
inductive Action (Q : ExpirationQueue) where
  | run (input : RunInput)
  | stop
  | subReactor (i : Nat) (input : LoopInput Q)
  | sweeper (wake : Option Bool) (hasMoreExpired : Bool)

/-- One step. `Stop` sets a member that the sweeper reads, too. -/
def step (c : ServerSetup) (s : SweptServer Q) : Action Q → SweptServer Q
  | .run input => s.runStep c input
  | .stop =>
      { s with server := s.server.step c .stop, sweeper := s.sweeper.step .requestStop }
  | .subReactor i input => { s with server := s.server.step c (.subReactor i input) }
  | .sweeper wake hasMoreExpired =>
      { s with sweeper := s.sweeper.step (.sweeper wake hasMoreExpired) }

/-- The interleavings. -/
def machine (c : ServerSetup) : Machine (SweptServer Q) (Action Q) := ⟨step c⟩

/-- The server after a run of steps. -/
def run (c : ServerSetup) (s : SweptServer Q) (actions : List (Action Q)) : SweptServer Q :=
  (machine c).run s actions

/-- A server as its constructor leaves it. -/
def created (c : ServerSetup) (interval : Int) (store : Store Q) : SweptServer Q where
  server := TcpServer.created c store
  sweeper := { interval }

/-! ### The parts -/

/-- What a step of the thread in `Run` does to the parts. -/
inductive RunOutcome (c : ServerSetup) (input : RunInput) (s : SweptServer Q) :
    SweptServer Q → Prop where
  | serves (hstart : s.starting = false) (hstop : s.stopping = false) :
      RunOutcome c input s { s with server := s.server.runStep c input }
  | begins (hstart : s.starting = true) (hcall : s.sweeper.call = .between)
      (hinterval : 0 < s.sweeper.interval) :
      RunOutcome c input s { s with sweeper := s.sweeper.step .start }
  | unswept (hstart : s.starting = true) (hcall : s.sweeper.call = .between) :
      RunOutcome c input s { s with server := s.server.runStep c { input with sweeperOk := true } }
  | starts (hstart : s.starting = true) (hcall : s.sweeper.call ≠ .between)
      (hafter : (s.sweeper.server input.sweeperOk).call ≠ .between) :
      RunOutcome c input s { s with sweeper := s.sweeper.server input.sweeperOk }
  | started (sweeperOk : Bool) (hstart : s.starting = true) (hcall : s.sweeper.call ≠ .between)
      (hafter : (s.sweeper.server input.sweeperOk).call = .between) :
      RunOutcome c input s
        { s with
          server := s.server.runStep c { input with sweeperOk }
          sweeper := s.sweeper.server input.sweeperOk }
  | asks (hstop : s.stopping = true) (hcall : s.sweeper.call = .between) :
      RunOutcome c input s { s with sweeper := s.sweeper.step .stop }
  | stops (hstop : s.stopping = true) (hcall : s.sweeper.call ≠ .between)
      (hafter : (s.sweeper.server true).call ≠ .between) :
      RunOutcome c input s { s with sweeper := s.sweeper.server true, sweeperStopped := false }
  | stopped (hstop : s.stopping = true) (hcall : s.sweeper.call ≠ .between)
      (hafter : (s.sweeper.server true).call = .between) :
      RunOutcome c input s { s with sweeper := s.sweeper.server true, sweeperStopped := true }

theorem runStep_outcome (c : ServerSetup) (input : RunInput) (s : SweptServer Q) :
    RunOutcome c input s (s.runStep c input) := by
  unfold runStep
  split
  · next hstart =>
    unfold startSweeperThread
    split
    · next hcall =>
      split
      · next hinterval => exact .begins hstart hcall hinterval
      · exact .unswept hstart hcall
    · next hcall =>
      simp only
      split
      · next hafter => exact .started _ hstart hcall hafter
      · next hafter => exact .starts hstart hcall hafter
  split
  · next hstop =>
    unfold stopSweeperThread
    split
    · next hcall => exact .asks hstop hcall
    · next hcall =>
      by_cases hafter : (s.sweeper.server true).call = .between
      · simp only [hafter, decide_true]
        exact .stopped hstop hcall hafter
      · simp only [hafter, decide_false]
        exact .stops hstop hcall hafter
  · next hstart hstop =>
    exact .serves (Bool.eq_false_of_not_eq_true hstart) (Bool.eq_false_of_not_eq_true hstop)

/-- In every step the sweeper takes a step of its own, or stays as it is. -/
theorem sweeper_step (c : ServerSetup) (s : SweptServer Q) (action : Action Q) :
    (s.step c action).sweeper = s.sweeper ∨ ∃ e, (s.step c action).sweeper = s.sweeper.step e := by
  cases action with
  | stop => exact .inr ⟨.requestStop, rfl⟩
  | subReactor i input => exact .inl rfl
  | sweeper wake hasMoreExpired => exact .inr ⟨.sweeper wake hasMoreExpired, rfl⟩
  | run input =>
      have houtcome := runStep_outcome c input s
      change (s.runStep c input).sweeper = _ ∨ ∃ e, (s.runStep c input).sweeper = _
      generalize s.runStep c input = after at houtcome ⊢
      cases houtcome with
      | serves | unswept => exact .inl rfl
      | begins => exact .inr ⟨.start, rfl⟩
      | asks => exact .inr ⟨.stop, rfl⟩
      | starts | started => exact .inr ⟨.server input.sweeperOk, rfl⟩
      | stops | stopped => exact .inr ⟨.server true, rfl⟩

/-- In every step the server takes a step of its own, or stays as it is. -/
theorem server_step (c : ServerSetup) (s : SweptServer Q) (action : Action Q) :
    (s.step c action).server = s.server ∨
      ∃ own, (s.step c action).server = s.server.step c own := by
  cases action with
  | stop => exact .inr ⟨.stop, rfl⟩
  | subReactor i input => exact .inr ⟨.subReactor i input, rfl⟩
  | sweeper wake hasMoreExpired => exact .inl rfl
  | run input =>
      have houtcome := runStep_outcome c input s
      change (s.runStep c input).server = _ ∨ ∃ own, (s.runStep c input).server = _
      generalize s.runStep c input = after at houtcome ⊢
      cases houtcome with
      | serves => exact .inr ⟨.run input, rfl⟩
      | unswept => exact .inr ⟨.run { input with sweeperOk := true }, rfl⟩
      | started sweeperOk => exact .inr ⟨.run { input with sweeperOk }, rfl⟩
      | begins | starts | asks | stops | stopped => exact .inl rfl

/-- Within a run, the server has a run of its own, and the sweeper has one. -/
theorem parts_run (c : ServerSetup) (interval : Int) (store : Store Q)
    (actions : List (Action Q)) :
    (∃ own, ((created c interval store).run c actions).server =
        (TcpServer.created c store).run c own) ∧
      ∃ events, ((created c interval store).run c actions).sweeper =
        SweeperThread.machine.run { interval } events := by
  constructor
  · refine (machine c).run_simulated (TcpServer.machine c) (R := fun s own => s.server = own)
      (fun {s own} hown action => ?_) rfl actions
    subst hown
    obtain hsame | ⟨e, hstep⟩ := server_step c s action
    · exact ⟨[], hsame⟩
    · exact ⟨[e], hstep⟩
  · refine (machine c).run_simulated SweeperThread.machine (R := fun s own => s.sweeper = own)
      (fun {s own} hown action => ?_) rfl actions
    subst hown
    obtain hsame | ⟨e, hstep⟩ := sweeper_step c s action
    · exact ⟨[], hsame⟩
    · exact ⟨[e], hstep⟩

/-! ### Where the calls are made -/

/-- What the sweeper members are at a point of `Run`. -/
def CallAt (s : SweptServer Q) : RunPoint → Prop
  | .created =>
      s.sweeper.call = .between ∧ s.sweeper.joinable = false ∧ s.sweeperStopped = false
  | .startSubReactors next =>
      (s.sweeper.call = .between ∨
          s.sweeper.call.starting = true ∧ s.server.subReactors.length ≤ next) ∧
        s.sweeper.joinable = false ∧ s.sweeperStopped = false
  | .handleException _ | .joinSubReactors =>
      s.sweeperStopped = false ∧
          (s.sweeper.call = .between ∨ s.sweeper.call.stopping = true) ∨
        s.sweeperStopped = true ∧ s.sweeper.Stopped
  | .returned => s.sweeperStopped = true ∧ s.sweeper.Stopped
  | _ => s.sweeper.call = .between ∧ s.sweeperStopped = false

/-- The invariant of a server with its sweeper. -/
structure Paired (s : SweptServer Q) : Prop where
  sweeper : s.sweeper.Invariant
  stopRequested : s.sweeper.stopRequested = s.server.stopRequested
  call : s.CallAt s.server.point

theorem paired_created (c : ServerSetup) (interval : Int) (store : Store Q) :
    (created c interval store).Paired :=
  ⟨SweeperThread.invariant_initial interval, rfl, rfl, rfl, rfl⟩

/-- `Run` is in no call, and has not come to the one at its end. -/
def Calm (s : SweptServer Q) : Prop := s.sweeper.call = .between ∧ s.sweeperStopped = false

/-- The call at the end of `Run` has returned. -/
def Ended (s : SweptServer Q) : Prop := s.sweeperStopped = true ∧ s.sweeper.Stopped

theorem Calm.callAt {s : SweptServer Q} (h : s.Calm) {point : RunPoint}
    (hlaunched : TcpServer.Launched point) (hpoint : point ≠ .returned) : s.CallAt point := by
  cases point with
  | created | startSubReactors => cases hlaunched
  | returned => exact absurd rfl hpoint
  | handleException | joinSubReactors => exact .inl ⟨h.2, .inl h.1⟩
  | _ => exact h

theorem Ended.callAt {s : SweptServer Q} (h : s.Ended) {point : RunPoint}
    (hpoint : TcpServer.ofException point) : s.CallAt point := by
  cases point with
  | handleException | joinSubReactors => exact .inr h
  | returned => exact h
  | _ => cases hpoint

theorem starting_iff {s : SweptServer Q} : s.starting = true ↔
    ∃ next, s.server.point = .startSubReactors next ∧ s.server.subReactors.length ≤ next := by
  unfold starting
  constructor
  · intro h
    split at h
    · next next hpoint => exact ⟨next, hpoint, of_decide_eq_true h⟩
    · cases h
  · rintro ⟨next, hpoint, hlast⟩
    rw [hpoint]
    exact decide_eq_true hlast

theorem stopping_iff {s : SweptServer Q} : s.stopping = true ↔
    ((∃ next, s.server.point = .handleException next) ∨ s.server.point = .joinSubReactors) ∧
      s.sweeperStopped = false := by
  unfold stopping
  constructor
  · intro h
    split at h
    · next next hpoint => exact ⟨.inl ⟨next, hpoint⟩, by simpa using h⟩
    · next hpoint => exact ⟨.inr hpoint, by simpa using h⟩
    · cases h
  · rintro ⟨⟨next, hpoint⟩ | hpoint, hnot⟩
    · rw [hpoint, hnot]
      rfl
    · rw [hpoint, hnot]
      rfl

/-- The two calls are made at different points. -/
theorem not_stopping_of_starting {s : SweptServer Q} (h : s.starting = true) :
    s.stopping = false := by
  obtain ⟨next, hpoint, -⟩ := starting_iff.mp h
  rw [stopping, hpoint]

/-- Where `Run` is in no call, it has not come to the one at its end, or this has returned. -/
theorem Paired.calm_or_ended {s : SweptServer Q} (h : s.Paired) (hstart : s.starting = false)
    (hstop : s.stopping = false) : s.Calm ∨ TcpServer.ofException s.server.point ∧ s.Ended := by
  have hcall := h.call
  cases hpoint : s.server.point with
  | created =>
      rw [hpoint] at hcall
      exact .inl ⟨hcall.1, hcall.2.2⟩
  | startSubReactors next =>
      rw [hpoint] at hcall
      simp only [starting, hpoint, decide_eq_false_iff_not] at hstart
      exact .inl ⟨hcall.1.resolve_right fun hlast => hstart hlast.2, hcall.2.2⟩
  | handleException | joinSubReactors =>
      rw [hpoint] at hcall
      simp only [stopping, hpoint, Bool.not_eq_false'] at hstop
      obtain ⟨hnot, -⟩ | hended := hcall
      · rw [hstop] at hnot
        cases hnot
      · exact .inr ⟨trivial, hended⟩
  | returned =>
      rw [hpoint] at hcall
      exact .inr ⟨trivial, hcall⟩
  | _ =>
      rw [hpoint] at hcall
      exact .inl hcall

/-- The step of the server that ends `StartSweeperThread`. -/
theorem launched_of_starting {s : SweptServer Q} (hstart : s.starting = true) (c : ServerSetup)
    (input : RunInput) : TcpServer.Launched (s.server.runStep c input).point ∧
      (s.server.runStep c input).point ≠ .returned := by
  obtain ⟨next, hpoint, hlast⟩ := starting_iff.mp hstart
  simp only [TcpServer.runStep, hpoint, TcpServer.startSubReactors,
    List.getElem?_eq_none hlast]
  split
  · exact ⟨trivial, by simp⟩
  · exact ⟨trivial, by simp [TcpServer.catchException]⟩

/-- The `catch` clause and what follows the loop are not left. -/
theorem ofException_runStep {s : TcpServer Q} (h : TcpServer.ofException s.point)
    (c : ServerSetup) (input : RunInput) : TcpServer.ofException (s.runStep c input).point := by
  have hother {point : RunPoint} (hat : s.point = point)
      (hnone : ¬ TcpServer.ofException point) {P : Prop} : P := absurd (hat ▸ h) hnone
  have houtcome := TcpServer.runStep_outcome c input s
  generalize s.runStep c input = after at houtcome ⊢
  cases houtcome with
  | throws | refused | startFailed | sweeperFailed | removeFailed | finished | rescued | joined =>
      trivial
  | drained hat =>
      obtain hat | ⟨next, hat⟩ := hat
      · exact hother hat id
      · exact hother hat id
  | opened hat | started hat | served hat | stopped hat | unready _ hat | undealt _ hat
  | dealt _ hat | round hat | forced hat | forcedAll hat => exact hother hat id
  | goes hgoes =>
      cases hgoes with
      | rescued | joining | returned => trivial
      | look hat | stopped hat | checkNext hat | checked hat | handled hat | accept hat | skip hat
      | acceptAgain hat | accepted hat | serving hat | probe hat | patient hat | forceNext hat =>
          exact hother hat id

theorem stopRequested_runStep (c : ServerSetup) (input : RunInput) (s : TcpServer Q) :
    (s.runStep c input).stopRequested = s.stopRequested := by
  have houtcome := TcpServer.runStep_outcome c input s
  generalize s.runStep c input = after at houtcome ⊢
  cases houtcome <;> rfl

/-- A step of the server outside the calls. -/
theorem Paired.serves {s : SweptServer Q} (h : s.Paired) (hstart : s.starting = false)
    (hstop : s.stopping = false) (c : ServerSetup) (input : RunInput) :
    CallAt { s with server := s.server.runStep c input } (s.server.runStep c input).point := by
  obtain hcalm | ⟨hpoint, hended⟩ := h.calm_or_ended hstart hstop
  · have hafter : Calm { s with server := s.server.runStep c input } := hcalm
    have hempty : s.server.point = .created ∨ (∃ next, s.server.point = .startSubReactors next) →
        s.sweeper.joinable = false := by
      have hcall := h.call
      rintro (hpoint | ⟨next, hpoint⟩)
      · rw [hpoint] at hcall
        exact hcall.2.1
      · rw [hpoint] at hcall
        exact hcall.2.1
    cases TcpServer.ran_runStep c input s.server with
    | refused _ _ hpoint => exact hafter.callAt (by rw [hpoint]; trivial) (by rw [hpoint]; simp)
    | threw _ _ hpoint => exact hafter.callAt (by rw [hpoint]; trivial) (by rw [hpoint]; simp)
    | turned _ _ hturn =>
        generalize s.server.runStep c input = after at hturn hafter ⊢
        generalize after.point = point at hturn ⊢
        generalize after.state = state at hturn
        cases hturn with
        | opened hpoint => exact ⟨.inl hcalm.1, hempty (.inl hpoint), hcalm.2⟩
        | started hpoint => exact ⟨.inl hcalm.1, hempty (.inr ⟨_, hpoint⟩), hcalm.2⟩
        | joined hpoint _ =>
            have hat : s.stopping = true := stopping_iff.mpr ⟨.inr hpoint, hcalm.2⟩
            rw [hstop] at hat
            cases hat
        | returned hpoint =>
            have hcall := h.call
            rw [hpoint] at hcall
            cases hcalm.2.symm.trans hcall.1
        | _ => exact hafter.callAt trivial (by simp)
  · have hafter : Ended { s with server := s.server.runStep c input } := hended
    exact hafter.callAt (ofException_runStep hpoint c input)

/-- Within the call at the end of `Run`. -/
theorem callAt_end {s : SweptServer Q} {point : RunPoint}
    (hpoint : (∃ next, point = .handleException next) ∨ point = .joinSubReactors)
    (h : s.sweeperStopped = false ∧
        (s.sweeper.call = .between ∨ s.sweeper.call.stopping = true) ∨ s.Ended) :
    s.CallAt point := by
  obtain ⟨next, rfl⟩ | rfl := hpoint
  · exact h
  · exact h

theorem Paired.stopping_call {s : SweptServer Q} (h : s.Paired) (hstop : s.stopping = true)
    (hinside : s.sweeper.call ≠ .between) : s.sweeper.call.stopping = true := by
  have hcall := h.call
  obtain ⟨⟨next, hpoint⟩ | hpoint, hnot⟩ := stopping_iff.mp hstop
  all_goals
    rw [hpoint] at hcall
    obtain ⟨-, hcall⟩ | ⟨hended, -⟩ := hcall
    · exact hcall.resolve_left hinside
    · rw [hnot] at hended
      cases hended

/-- A step of the thread in `Run`. -/
theorem Paired.callAt_runStep {s : SweptServer Q} (h : s.Paired) (c : ServerSetup)
    (input : RunInput) : (s.runStep c input).CallAt (s.runStep c input).server.point := by
  have hcall := h.call
  have houtcome := runStep_outcome c input s
  generalize s.runStep c input = after at houtcome ⊢
  cases houtcome with
  | serves hstart hstop => exact h.serves hstart hstop c input
  | begins hstart hbetween hinterval =>
      obtain ⟨next, hpoint, hlast⟩ := starting_iff.mp hstart
      rw [hpoint] at hcall
      simp only [hpoint, SweeperThread.step, hbetween, hinterval, and_self, if_true]
      exact ⟨.inr ⟨rfl, hlast⟩, hcall.2⟩
  | unswept hstart hbetween =>
      obtain ⟨next, hpoint, hlast⟩ := starting_iff.mp hstart
      rw [hpoint] at hcall
      obtain ⟨hlaunched, hreturned⟩ :=
        launched_of_starting hstart c { input with sweeperOk := true }
      have hcalm : Calm { s with server := s.server.runStep c { input with sweeperOk := true } } :=
        ⟨hbetween, hcall.2.2⟩
      exact hcalm.callAt hlaunched hreturned
  | starts hstart hinside hafter =>
      obtain ⟨next, hpoint, hlast⟩ := starting_iff.mp hstart
      rw [hpoint] at hcall
      have hstarting := (hcall.1.resolve_left hinside).1
      obtain hbetween | ⟨hnext, hempty, -⟩ :=
        SweeperThread.server_starting h.sweeper hstarting hcall.2.1 input.sweeperOk
      · exact absurd hbetween hafter
      · simp only [hpoint]
        exact ⟨.inr ⟨hnext, hlast⟩, hempty, hcall.2.2⟩
  | started sweeperOk hstart hinside hafter =>
      obtain ⟨next, hpoint, hlast⟩ := starting_iff.mp hstart
      rw [hpoint] at hcall
      obtain ⟨hlaunched, hreturned⟩ := launched_of_starting hstart c { input with sweeperOk }
      have hcalm : Calm { s with
          server := s.server.runStep c { input with sweeperOk }
          sweeper := s.sweeper.server input.sweeperOk } := ⟨hafter, hcall.2.2⟩
      exact hcalm.callAt hlaunched hreturned
  | asks hstop hbetween =>
      obtain ⟨hpoint, hnot⟩ := stopping_iff.mp hstop
      refine callAt_end hpoint (.inl ⟨hnot, .inr ?_⟩)
      simp [SweeperThread.step, hbetween, SweeperCall.stopping]
  | stops hstop hinside hafter =>
      obtain ⟨hpoint, -⟩ := stopping_iff.mp hstop
      refine callAt_end hpoint (.inl ⟨rfl, .inr ?_⟩)
      exact (SweeperThread.server_stopping h.sweeper (h.stopping_call hstop hinside)
        true).resolve_right fun hstopped => hafter hstopped.1
  | stopped hstop hinside hafter =>
      obtain ⟨hpoint, -⟩ := stopping_iff.mp hstop
      refine callAt_end hpoint (.inr ⟨rfl, ?_⟩)
      refine (SweeperThread.server_stopping h.sweeper (h.stopping_call hstop hinside)
        true).resolve_left fun hnext => ?_
      rw [hafter] at hnext
      cases hnext

theorem CallAt.congr {s after : SweptServer Q} {point : RunPoint} (h : s.CallAt point)
    (hcall : after.sweeper.call = s.sweeper.call)
    (hjoinable : after.sweeper.joinable = s.sweeper.joinable)
    (hstopped : s.sweeper.Stopped → after.sweeper.Stopped)
    (hsame : after.sweeperStopped = s.sweeperStopped)
    (hlength : after.server.subReactors.length = s.server.subReactors.length) :
    after.CallAt point := by
  cases point with
  | handleException | joinSubReactors =>
      simp only [CallAt, hcall, hsame] at h ⊢
      exact h.imp_right fun hended => ⟨hended.1, hstopped hended.2⟩
  | returned =>
      simp only [CallAt, hsame] at h ⊢
      exact ⟨h.1, hstopped h.2⟩
  | _ => simpa only [CallAt, hcall, hjoinable, hsame, hlength] using h

/-- The steps of the other threads. -/
theorem Paired.callAt_other {s : SweptServer Q} (h : s.Paired) (c : ServerSetup)
    {action : Action Q} (hother : ∀ input, action ≠ .run input) :
    (s.step c action).CallAt (s.step c action).server.point := by
  cases action with
  | run input => exact absurd rfl (hother input)
  | stop => exact h.call.congr rfl rfl id rfl rfl
  | subReactor i input =>
      have hpoint : (s.server.step c (.subReactor i input)).point = s.server.point :=
        (TcpServer.step_other (by simp)).1
      simp only [step, hpoint]
      exact h.call.congr rfl rfl id rfl
        (TcpServer.length_subReactors_step c s.server (.subReactor i input))
  | sweeper wake hasMoreExpired =>
      refine h.call.congr (SweeperThread.sweeper_call _ wake hasMoreExpired)
        (SweeperThread.sweeper_joinable _ wake hasMoreExpired) (fun hstopped => ?_) rfl rfl
      simp only [step, SweeperThread.step, SweeperThread.sweeper, hstopped.2.2]
      exact hstopped

/-- `m_stopRequested` is one member. -/
theorem Paired.stopRequested_step {s : SweptServer Q} (h : s.Paired) (c : ServerSetup)
    (action : Action Q) :
    (s.step c action).sweeper.stopRequested = (s.step c action).server.stopRequested := by
  have hkept {e : SweeperThread.Event} (he : e ≠ .requestStop) :
      (s.sweeper.step e).stopRequested = s.server.stopRequested :=
    (SweeperThread.step_stopRequested s.sweeper he).trans h.stopRequested
  cases action with
  | stop => rfl
  | subReactor i input =>
      simp only [step, TcpServer.step]
      cases s.server.subReactors[i]? with
      | none => exact h.stopRequested
      | some r => exact h.stopRequested
  | sweeper wake hasMoreExpired => exact hkept (by simp)
  | run input =>
      have houtcome := runStep_outcome c input s
      change (s.runStep c input).sweeper.stopRequested = (s.runStep c input).server.stopRequested
      generalize s.runStep c input = after at houtcome ⊢
      cases houtcome with
      | serves | unswept => exact h.stopRequested.trans (stopRequested_runStep _ _ _).symm
      | begins | asks => exact hkept (by simp)
      | starts => exact hkept (e := .server input.sweeperOk) (by simp)
      | started sweeperOk =>
          exact (hkept (e := .server input.sweeperOk) (by simp)).trans
            (stopRequested_runStep _ _ _).symm
      | stops | stopped => exact hkept (e := .server true) (by simp)

theorem Paired.step {s : SweptServer Q} (h : s.Paired) (c : ServerSetup) (action : Action Q) :
    (s.step c action).Paired where
  sweeper := by
    obtain hsame | ⟨e, hstep⟩ := sweeper_step c s action
    · rw [hsame]
      exact h.sweeper
    · rw [hstep]
      exact h.sweeper.step e
  stopRequested := h.stopRequested_step c action
  call := by
    cases action with
    | run input => exact h.callAt_runStep c input
    | stop | subReactor | sweeper => exact h.callAt_other c (by simp)

/-! ### Executions -/

/-- A step of the thread in `Run` in which `accept` is not interrupted. -/
def Action.Runs (e : Action Q) : Prop :=
  ∃ input : RunInput, e = .run input ∧ input.accept ≠ .interrupted

/-- What the threads, the system calls and the clock are assumed to do. The thread in `Run`,
the event loops and the sweeper are scheduled again and again, and `accept` is not interrupted
for ever; a sub reactor that is asked to stop has an iteration later that finds its wakeup
channel readable; the clock passes every point; a mutex that is free again and again is had in
the end; and from some time on a sweep leaves expired entries only when `Stop` has been
called. -/
structure Cooperative {c : ServerSetup} (x : Execution (machine c : Machine (SweptServer Q) _)) :
    Prop where
  runs : x.Recurs fun _ e => e.Runs
  iterates : ∀ i < (x.state 0).server.subReactors.length,
    x.Recurs fun _ e => ∃ input, e = .subReactor i input
  notified : ∀ n, ∀ i < (x.state 0).server.subReactors.length,
    ¬ (x.state n).server.Summoned i → (x.state (n + 1)).server.Summoned i →
      ∃ m > n, ∃ input, x.event m = .subReactor i input ∧
        ∀ r, (x.state m).server.subReactors[i]? = some r → r.Heeds input
  clock : ∀ t, x.Settles fun _ e => ∀ i input, e = .subReactor i input → t ≤ input.now
  sweeps : x.Recurs fun _ e => ∃ wake hasMoreExpired, e = .sweeper wake hasMoreExpired
  mutex : x.Recurs (fun s _ => s.sweeper.mutex = none) →
    x.Recurs fun s e => s.sweeper.mutex = none ∧ ∃ input, e = .run input
  passes : x.Settles fun s e => ∀ wake, e = .sweeper wake true → s.server.stopRequested = true

/-- The other threads do not end a call of `Run`, and do not begin one. -/
theorem calls_other (c : ServerSetup) (s : SweptServer Q) {action : Action Q}
    (hother : ∀ input, action ≠ .run input) :
    (s.step c action).starting = s.starting ∧ (s.step c action).stopping = s.stopping ∧
      (s.step c action).sweeper.call = s.sweeper.call ∧
      (s.step c action).sweeperStopped = s.sweeperStopped := by
  cases action with
  | run input => exact absurd rfl (hother input)
  | stop => exact ⟨rfl, rfl, rfl, rfl⟩
  | subReactor i input =>
      have hpoint : (s.server.step c (.subReactor i input)).point = s.server.point :=
        (TcpServer.step_other (by simp)).1
      have hlength := TcpServer.length_subReactors_step c s.server (.subReactor i input)
      simp only [step, starting, stopping, hpoint, hlength, and_self]
  | sweeper wake hasMoreExpired =>
      exact ⟨rfl, rfl, SweeperThread.sweeper_call _ wake hasMoreExpired, rfl⟩

theorem launched_step {s : TcpServer Q} (h : TcpServer.Launched s.point) (c : ServerSetup)
    (action : TcpServer.Action Q) : TcpServer.Launched (s.step c action).point := by
  cases action with
  | run input =>
      change TcpServer.Launched (s.runStep c input).point
      cases TcpServer.ran_runStep c input s with
      | refused _ _ hpoint =>
          rw [hpoint]
          trivial
      | threw _ _ hpoint =>
          rw [hpoint]
          trivial
      | turned _ _ hturn => exact hturn.launched h
  | stop => exact h
  | subReactor i input =>
      have hpoint : (s.step c (.subReactor i input)).point = s.point :=
        (TcpServer.step_other (by simp)).1
      rw [hpoint]
      exact h

/-- A step of the thread in `Run` leads `StartSweeperThread` on, or ends it. -/
theorem Paired.starting_runStep {s : SweptServer Q} (h : s.Paired) (hstart : s.starting = true)
    (c : ServerSetup) (input : RunInput) :
    TcpServer.Launched (s.runStep c input).server.point ∨
      (s.runStep c input).starting = true ∧
        SweeperThread.startingRank (s.runStep c input).sweeper.call <
          SweeperThread.startingRank s.sweeper.call := by
  obtain ⟨next, hpoint, hlast⟩ := starting_iff.mp hstart
  have hcall := h.call
  rw [hpoint] at hcall
  have houtcome := runStep_outcome c input s
  generalize s.runStep c input = after at houtcome ⊢
  cases houtcome with
  | serves hnot =>
      rw [hstart] at hnot
      cases hnot
  | begins _ hbetween hinterval =>
      refine .inr ⟨hstart, ?_⟩
      simp [SweeperThread.step, hbetween, hinterval, SweeperThread.startingRank]
  | unswept | started => exact .inl (launched_of_starting hstart c _).1
  | starts _ hinside hafter =>
      obtain hbetween | ⟨-, -, hlt⟩ := SweeperThread.server_starting h.sweeper
        (hcall.1.resolve_left hinside).1 hcall.2.1 input.sweeperOk
      · exact absurd hbetween hafter
      · exact .inr ⟨hstart, hlt⟩
  | asks hstop | stops hstop | stopped hstop =>
      cases hstop.symm.trans (not_stopping_of_starting hstart)

section Executions

variable {c : ServerSetup} {x : Execution (machine c : Machine (SweptServer Q) _)}

theorem state_next {n : Nat} {input : RunInput} (hevent : x.event n = .run input) :
    x.state (n + 1) = (x.state n).runStep c input := by
  rw [x.next, hevent]
  rfl

theorem state_other {n : Nat} (hnot : ¬ ∃ input, x.event n = .run input) :
    (x.state (n + 1)).starting = (x.state n).starting ∧
      (x.state (n + 1)).stopping = (x.state n).stopping ∧
      (x.state (n + 1)).sweeper.call = (x.state n).sweeper.call ∧
      (x.state (n + 1)).sweeperStopped = (x.state n).sweeperStopped := by
  rw [x.next]
  exact calls_other c (x.state n) fun input hevent => hnot ⟨input, hevent⟩

/-- `StartSweeperThread` returns. -/
theorem leadsTo_launched (hpaired : ∀ n, (x.state n).Paired)
    (hruns : x.Recurs fun _ e => e.Runs) :
    x.LeadsTo (fun s => s.starting = true) fun s => TcpServer.Launched s.server.point := by
  apply Execution.LeadsTo.of_rank fun s => SweeperThread.startingRank s.sweeper.call
  intro w
  have hmoves : ∀ n, (x.state n).starting = true ∧
      SweeperThread.startingRank (x.state n).sweeper.call = w →
      (∃ input, x.event n = .run input) →
        TcpServer.Launched (x.state (n + 1)).server.point ∨ (x.state (n + 1)).starting = true ∧
          SweeperThread.startingRank (x.state (n + 1)).sweeper.call < w := by
    rintro n ⟨hstart, rfl⟩ ⟨input, hevent⟩
    rw [state_next hevent]
    exact (hpaired n).starting_runStep hstart c input
  apply Execution.LeadsTo.of_step hruns
  · rintro n ⟨hstart, hrank⟩
    by_cases hrun : ∃ input, x.event n = .run input
    · exact .inr (hmoves n ⟨hstart, hrank⟩ hrun)
    · obtain ⟨hsame, -, hcall, -⟩ := state_other hrun
      exact .inl ⟨hsame.trans hstart, by rw [hcall, hrank]⟩
  · rintro n hp ⟨input, hevent, -⟩
    exact hmoves n hp ⟨input, hevent⟩

/-- The steps of the sweeper while the thread in `Run` is in a call. -/
def sweeperEvent : Action Q → SweeperThread.Event
  | .run _ => .server true
  | .stop => .requestStop
  | .subReactor _ _ => .start
  | .sweeper wake hasMoreExpired => .sweeper wake hasMoreExpired

/-- Within `StopSweeperThread` the sweeper and the thread in `Run` take steps of their own. -/
theorem sweeper_stopping {s : SweptServer Q} (hstop : s.stopping = true)
    (hcall : s.sweeper.call ≠ .between) (c : ServerSetup) (action : Action Q) :
    (s.step c action).sweeper = s.sweeper.step (sweeperEvent action) := by
  cases action with
  | stop | sweeper => rfl
  | subReactor i input => simp [step, sweeperEvent, SweeperThread.step, hcall]
  | run input =>
      have houtcome := runStep_outcome c input s
      change (s.runStep c input).sweeper = s.sweeper.server true
      generalize s.runStep c input = after at houtcome ⊢
      cases houtcome with
      | serves _ hnot =>
          rw [hstop] at hnot
          cases hnot
      | begins hstart | unswept hstart | starts hstart | started _ hstart =>
          cases hstop.symm.trans (not_stopping_of_starting hstart)
      | asks _ hbetween => exact absurd hbetween hcall
      | stops | stopped => rfl

/-- The call of `StopSweeperThread` at the end of `Run` begins, or goes on, or has returned. -/
theorem stopping_runStep {s : SweptServer Q} (hstop : s.stopping = true) (c : ServerSetup)
    (input : RunInput) : (s.runStep c input).sweeperStopped = true ∨
      (s.runStep c input).stopping = true ∧ (s.runStep c input).sweeper.call ≠ .between := by
  have houtcome := runStep_outcome c input s
  generalize s.runStep c input = after at houtcome ⊢
  cases houtcome with
  | serves _ hnot =>
      rw [hstop] at hnot
      cases hnot
  | begins hstart | unswept hstart | starts hstart | started _ hstart =>
      cases hstop.symm.trans (not_stopping_of_starting hstart)
  | asks _ hbetween => exact .inr ⟨hstop, by simp [SweeperThread.step, hbetween]⟩
  | stops _ _ hafter =>
      exact .inr ⟨stopping_iff.mpr ⟨(stopping_iff.mp hstop).1, rfl⟩, hafter⟩
  | stopped => exact .inl rfl

/-- `StopSweeperThread` returns at the end of `Run`. Otherwise the steps from its first one on
would be an execution of the two threads in which it does not. -/
theorem leadsTo_sweeperStopped (hpaired : ∀ n, (x.state n).Paired) (hx : Cooperative x) :
    x.LeadsTo (fun s => s.stopping = true) fun s => s.sweeperStopped = true := by
  intro n hstop
  by_contra hnever
  have hnot : ∀ m ≥ n, (x.state m).sweeperStopped ≠ true := fun m hm hstopped =>
    hnever ⟨m, hm, hstopped⟩
  have hnext (m : Nat) (hm : m ≥ n) (hat : (x.state m).stopping = true) :
      (x.state (m + 1)).stopping = true ∧ ((x.state m).sweeper.call ≠ .between →
        (x.state (m + 1)).sweeper.call ≠ .between) := by
    by_cases hrun : ∃ input, x.event m = .run input
    · obtain ⟨input, hevent⟩ := hrun
      have hmoves := stopping_runStep hat c input
      rw [← state_next hevent] at hmoves
      obtain ⟨hgoes, hinside⟩ := hmoves.resolve_left (hnot (m + 1) (by omega))
      exact ⟨hgoes, fun _ => hinside⟩
    · obtain ⟨-, hsame, hcall, -⟩ := state_other hrun
      exact ⟨hsame.trans hat, fun hinside => hcall.symm ▸ hinside⟩
  have hstays : ∀ m ≥ n, (x.state m).stopping = true := by
    intro m hm
    induction m, hm using Nat.le_induction with
    | base => exact hstop
    | succ m hm ih => exact (hnext m hm ih).1
  -- the thread in `Run` is in the call from its next step on
  obtain ⟨first, hfirst, input, hevent, -⟩ := hx.runs n
  have hbegun : (x.state (first + 1)).sweeper.call ≠ .between := by
    have hmoves := stopping_runStep (hstays first hfirst) c input
    rw [← state_next hevent] at hmoves
    exact (hmoves.resolve_left (hnot (first + 1) (by omega))).2
  have hinside : ∀ m ≥ first + 1, (x.state m).sweeper.call ≠ .between := by
    intro m hm
    induction m, hm using Nat.le_induction with
    | base => exact hbegun
    | succ m hm ih => exact (hnext m (by omega) (hstays m (by omega))).2 ih
  let y : Execution SweeperThread.machine :=
    { state := fun m => (x.state (first + 1 + m)).sweeper
      event := fun m => sweeperEvent (x.event (first + 1 + m))
      next := fun m => by
        rw [← Nat.add_assoc, x.next]
        exact sweeper_stopping (hstays _ (by omega)) (hinside _ (by omega)) c _ }
  have hserver {m : Nat} (h : ∃ input, x.event m = .run input) :
      (sweeperEvent (x.event m)).isServer := by
    obtain ⟨input, hrun⟩ := h
    exact ⟨true, by rw [hrun]; rfl⟩
  have hruns := Execution.Recurs.drop (x := x) hx.runs (first + 1)
  have hsweeps := Execution.Recurs.drop (x := x) hx.sweeps (first + 1)
  have hleads := SweeperThread.leadsTo_stopped_of_stopping y (hpaired _).sweeper
    (fun m => ?_) (fun m => ?_) (fun hfree => ?_) ?_
  · obtain ⟨m, -, hstopped⟩ := hleads 0
      ((hpaired _).stopping_call (hstays _ (by omega)) (hinside _ (by omega)))
    exact hinside _ (by omega) hstopped.1
  · obtain ⟨k, hk, input, hrun, -⟩ := hruns m
    exact ⟨k, hk, hserver ⟨input, hrun⟩⟩
  · obtain ⟨k, hk, wake, more, hsweep⟩ := hsweeps m
    change x.event (first + 1 + k) = _ at hsweep
    exact ⟨k, hk, wake, more, by change sweeperEvent _ = _; rw [hsweep]; rfl⟩
  · have hfree' : x.Recurs fun s _ => s.sweeper.mutex = none := by
      intro m
      obtain ⟨k, hk, hnone⟩ := hfree m
      exact ⟨first + 1 + k, by omega, hnone⟩
    intro m
    obtain ⟨k, hk, hnone, hrun⟩ := Execution.Recurs.drop (hx.mutex hfree') (first + 1) m
    exact ⟨k, hk, hnone, hserver hrun⟩
  · obtain ⟨k, hk⟩ := hx.passes
    refine ⟨k, fun m hm wake hevent => ?_⟩
    change sweeperEvent (x.event (first + 1 + m)) = _ at hevent
    change (x.state (first + 1 + m)).sweeper.stopRequested = true
    rw [(hpaired _).stopRequested]
    cases hat : x.event (first + 1 + m) with
    | sweeper wake' more =>
        rw [hat] at hevent
        cases hevent
        exact hk (first + 1 + m) (by omega) wake hat
    | run | stop | subReactor =>
        rw [hat] at hevent
        cases hevent

/-- Once `StopSweeperThread` has returned, `Run` is in no call any more. -/
theorem stopped_later {n : Nat} (h : (x.state n).sweeperStopped = true) :
    ∀ m ≥ n, (x.state m).sweeperStopped = true := by
  intro m hm
  induction m, hm using Nat.le_induction with
  | base => exact h
  | succ m hm ih =>
      by_cases hrun : ∃ input, x.event m = .run input
      · obtain ⟨input, hevent⟩ := hrun
        have hnot (hstop : (x.state m).stopping = true) : False := by
          cases ih.symm.trans (stopping_iff.mp hstop).2
        have houtcome := runStep_outcome c input (x.state m)
        rw [← state_next hevent] at houtcome
        generalize x.state (m + 1) = after at houtcome ⊢
        cases houtcome with
        | serves | begins | unswept | starts | started => exact ih
        | asks hstop | stops hstop | stopped hstop => exact (hnot hstop).elim
      · exact (state_other hrun).2.2.2.trans ih

theorem launched_later {n : Nat} (h : TcpServer.Launched (x.state n).server.point) :
    ∀ m ≥ n, TcpServer.Launched (x.state m).server.point := by
  refine Execution.later (I := fun s : SweptServer Q => TcpServer.Launched s.server.point)
    (fun s action hs => ?_) h
  obtain hsame | ⟨own, hstep⟩ := server_step c s action
  · exact hsame ▸ hs
  · exact hstep ▸ launched_step hs c own

/-- The thread in `Run` takes steps of the server again and again: it is in a call of
`StartSweeperThread` or `StopSweeperThread` at most once, and both return. -/
theorem recurs_serves (hpaired : ∀ n, (x.state n).Paired) (hx : Cooperative x) :
    x.Recurs fun s e => e.Runs ∧ s.starting = false ∧ s.stopping = false := by
  have hunstarted {m : Nat} (h : TcpServer.Launched (x.state m).server.point) :
      (x.state m).starting = false := by
    by_contra hstart
    obtain ⟨next, hpoint, -⟩ := starting_iff.mp (Bool.not_eq_false _ ▸ hstart)
    exact h.ne_start next hpoint
  have hlast {n : Nat} (h : TcpServer.Launched (x.state n).server.point) :
      ∃ m ≥ n, (x.event m).Runs ∧ (x.state m).starting = false ∧ (x.state m).stopping = false := by
    obtain ⟨m, hm, hruns⟩ := hx.runs n
    have hstart := hunstarted (launched_later h m hm)
    by_cases hstop : (x.state m).stopping = true
    · obtain ⟨k, hk, hstopped⟩ := leadsTo_sweeperStopped hpaired hx m hstop
      obtain ⟨l, hl, hruns'⟩ := hx.runs k
      have hended := stopped_later hstopped l hl
      refine ⟨l, by omega, hruns', hunstarted (launched_later h l (by omega)), ?_⟩
      by_contra hnot
      cases hended.symm.trans (stopping_iff.mp (Bool.not_eq_false _ ▸ hnot)).2
    · exact ⟨m, hm, hruns, hstart, Bool.eq_false_of_not_eq_true hstop⟩
  intro n
  obtain ⟨m, hm, hruns⟩ := hx.runs n
  by_cases hstart : (x.state m).starting = true
  · obtain ⟨k, hk, hlaunched⟩ := leadsTo_launched hpaired hx.runs m hstart
    obtain ⟨l, hl, hserves⟩ := hlast hlaunched
    exact ⟨l, by omega, hserves⟩
  by_cases hstop : (x.state m).stopping = true
  · have hlaunched : TcpServer.Launched (x.state m).server.point := by
      obtain ⟨⟨next, hpoint⟩ | hpoint, -⟩ := stopping_iff.mp hstop
      · rw [hpoint]
        trivial
      · rw [hpoint]
        trivial
    obtain ⟨l, hl, hserves⟩ := hlast hlaunched
    exact ⟨l, by omega, hserves⟩
  · exact ⟨m, hm, hruns, Bool.eq_false_of_not_eq_true hstart, Bool.eq_false_of_not_eq_true hstop⟩

end Executions

/-! ### The execution of the server -/

/-- The input of an iteration that is not taken. -/
def asleep (now : TimePoint) : LoopInput Q where
  ready := none
  drainOk := true
  io _ := ⟨.returned .wouldBlock, .returned .wouldBlock, fun _ => ⟨id, now, [], 0⟩⟩
  modityOk _ := true
  addOk _ := true
  drainModityOk _ := true
  removeOk _ := true
  now

/-- A step of the server that can stand for a step of the whole. -/
structure StandsFor (c : ServerSetup) (now : TimePoint) (s : SweptServer Q) (action : Action Q)
    (own : TcpServer.Action Q) : Prop where
  next : (s.step c action).server = s.server.step c own
  iterates : ∀ i input, action = .subReactor i input → own = .subReactor i input
  clock : ∀ i input, own = .subReactor i input → action = .subReactor i input ∨ now = input.now
  runs : s.starting = false → s.stopping = false → action.Runs → own.Runs

/-- Where the server takes no step, an iteration of no sub reactor stands for it. -/
theorem standsFor_asleep {c : ServerSetup} {now : TimePoint} {s : SweptServer Q}
    {action : Action Q} (hserver : (s.step c action).server = s.server)
    (hother : ∀ i input, action ≠ .subReactor i input)
    (hruns : s.starting = false → s.stopping = false → ¬ action.Runs) :
    StandsFor c now s action (.subReactor s.server.subReactors.length (asleep now)) where
  next := by
    rw [hserver]
    simp [TcpServer.step]
  iterates i input h := absurd h (hother i input)
  clock i input h := by
    cases h
    exact .inr rfl
  runs hstart hstop h := absurd h (hruns hstart hstop)

theorem standsFor_run {c : ServerSetup} {now : TimePoint} {s : SweptServer Q} {input own : RunInput}
    (hserver : (s.runStep c input).server = s.server.runStep c own)
    (hsame : s.starting = false → own = input) : StandsFor c now s (.run input) (.run own) where
  next := hserver
  iterates i input h := by cases h
  clock i input h := by cases h
  runs hstart _ h := by
    obtain ⟨input', hrun, haccept⟩ := h
    cases hrun
    exact ⟨own, rfl, hsame hstart ▸ haccept⟩

theorem exists_standsFor (c : ServerSetup) (now : TimePoint) (s : SweptServer Q)
    (action : Action Q) : ∃ own, StandsFor c now s action own := by
  cases action with
  | stop => exact ⟨.stop, rfl, by simp, by simp, fun _ _ h => (by obtain ⟨_, h, -⟩ := h; cases h)⟩
  | subReactor i input =>
      exact ⟨.subReactor i input, rfl, by simp, by simp,
        fun _ _ h => (by obtain ⟨_, h, -⟩ := h; cases h)⟩
  | sweeper wake more =>
      exact ⟨_, standsFor_asleep rfl (by simp) fun _ _ h => (by obtain ⟨_, h, -⟩ := h; cases h)⟩
  | run input =>
      have houtcome := runStep_outcome c input s
      generalize hafter : s.runStep c input = after at houtcome
      cases houtcome with
      | serves => exact ⟨.run input, standsFor_run (by rw [hafter]) fun _ => rfl⟩
      | unswept hstart =>
          refine ⟨.run { input with sweeperOk := true }, standsFor_run (by rw [hafter]) fun h => ?_⟩
          cases hstart.symm.trans h
      | started sweeperOk hstart =>
          refine ⟨.run { input with sweeperOk }, standsFor_run (by rw [hafter]) fun h => ?_⟩
          cases hstart.symm.trans h
      | begins hstart | starts hstart =>
          have hsame : (s.runStep c input).server = s.server := by rw [hafter]
          refine ⟨_, standsFor_asleep hsame (by simp) fun h => ?_⟩
          cases hstart.symm.trans h
      | asks hstop | stops hstop | stopped hstop =>
          have hsame : (s.runStep c input).server = s.server := by rw [hafter]
          refine ⟨_, standsFor_asleep hsame (by simp) fun _ h => ?_⟩
          cases hstop.symm.trans h

/-- The server within an execution has an execution of its own, in which the clock goes on while
it takes no step. -/
theorem exists_execution {c : ServerSetup}
    (x : Execution (machine c : Machine (SweptServer Q) _)) :
    ∃ y : Execution (TcpServer.machine c : Machine (TcpServer Q) _),
      (∀ n, y.state n = (x.state n).server) ∧
        ∀ n : Nat, StandsFor c n (x.state n) (x.event n) (y.event n) := by
  choose event hevent using fun n : Nat => exists_standsFor c n (x.state n) (x.event n)
  refine ⟨⟨fun n => (x.state n).server, event, fun n => ?_⟩, fun n => rfl, hevent⟩
  rw [x.next]
  exact (hevent n).next

/-- The server within a cooperative execution is cooperative. -/
theorem Cooperative.server {c : ServerSetup}
    {x : Execution (machine c : Machine (SweptServer Q) _)} (hx : Cooperative x)
    (hpaired : ∀ n, (x.state n).Paired)
    {y : Execution (TcpServer.machine c : Machine (TcpServer Q) _)}
    (hstate : ∀ n, y.state n = (x.state n).server)
    (hevent : ∀ n : Nat, StandsFor c n (x.state n) (x.event n) (y.event n)) :
    TcpServer.Cooperative y where
  runs n := by
    obtain ⟨m, hm, hruns, hstart, hstop⟩ := recurs_serves hpaired hx n
    exact ⟨m, hm, (hevent m).runs hstart hstop hruns⟩
  iterates i hi n := by
    rw [hstate] at hi
    obtain ⟨m, hm, input, hiterates⟩ := hx.iterates i hi n
    exact ⟨m, hm, input, (hevent m).iterates i input hiterates⟩
  notified n i hi hbefore hafter := by
    rw [hstate] at hi hbefore hafter
    obtain ⟨m, hm, input, hiterates, hheeds⟩ := hx.notified n i hi hbefore hafter
    refine ⟨m, hm, input, (hevent m).iterates i input hiterates, fun r hget => ?_⟩
    rw [hstate] at hget
    exact hheeds r hget
  clock t := by
    obtain ⟨k, hk⟩ := hx.clock t
    refine ⟨max k t.toNat, fun m hm i input hown => ?_⟩
    obtain haction | hnow := (hevent m).clock i input hown
    · exact hk m (le_trans (le_max_left ..) hm) i input haction
    · have hle : t.toNat ≤ m := le_trans (le_max_right ..) hm
      rw [← hnow]
      exact Int.le_trans (Int.self_le_toNat t) (Int.ofNat_le.mpr hle)

/-- `Run` returns once the server has been asked to stop, drains, or has caught an exception;
the threads of all sub reactors have ended then, or have never been created, and there is no
sweeper any more. -/
theorem run_returns (c : ServerSetup) (interval : Int) (store : Store Q)
    (x : Execution (machine c)) (hstart : x.state 0 = created c interval store)
    (hx : Cooperative x) :
    x.LeadsTo
      (fun s => s.server.stopRequested = true ∨ s.server.state = .draining ∨
        s.server.caught = true)
      fun s => s.server.point = .returned ∧
        s.server.subReactors.all TcpServer.threadEnded = true ∧ s.sweeper.Stopped := by
  have hpaired : ∀ n, (x.state n).Paired :=
    x.invariant (fun s action h => h.step c action) (hstart ▸ paired_created c interval store)
  obtain ⟨y, hstate, hevent⟩ := exists_execution x
  have hreturns := TcpServer.leadsTo_end c store y (by rw [hstate, hstart]; rfl)
    (hx.server hpaired hstate hevent)
  intro n hn
  obtain ⟨m, hm, hreturned, hended⟩ := hreturns n (by rw [hstate]; exact hn)
  rw [hstate] at hreturned hended
  have hcall := (hpaired m).call
  rw [hreturned] at hcall
  exact ⟨m, hm, hreturned, hended, hcall.2⟩

/-- Once `StopSweeperThread` has returned, nobody holds the mutex. -/
theorem Paired.free_of_stopped {s : SweptServer Q} (h : s.Paired)
    (hstopped : s.sweeperStopped = true) : s.sweeper.mutex = none := by
  have hended : s.sweeper.Stopped := by
    have hcall := h.call
    cases hpoint : s.server.point with
    | created | startSubReactors =>
        rw [hpoint] at hcall
        cases hstopped.symm.trans hcall.2.2
    | handleException | joinSubReactors =>
        rw [hpoint] at hcall
        obtain ⟨hnot, -⟩ | ⟨-, hended⟩ := hcall
        · cases hstopped.symm.trans hnot
        · exact hended
    | returned =>
        rw [hpoint] at hcall
        exact hcall.2
    | _ =>
        rw [hpoint] at hcall
        cases hstopped.symm.trans hcall.2
  cases hparty : s.sweeper.mutex with
  | none => rfl
  | some party =>
      cases party with
      | server =>
          have hholding := h.sweeper.server.mp hparty
          rw [hended.1] at hholding
          cases hholding
      | sweeper =>
          have hholding := h.sweeper.sweeper.mp hparty
          rw [hended.2.2] at hholding
          cases hholding

/-- A step of the main reactor in which only `Wait` fails. -/
def waitFails (now : TimePoint) : RunInput :=
  { TcpServer.idly [] .wouldBlock now with ready := none }

/-- The threads in turns. `Wait` fails, and the waits of the sweeper time out. -/
def failing (n : Nat) : Action sortedExpirations :=
  if n % 3 = 0 then
    .run (waitFails n)
  else if n % 3 = 1 then
    .subReactor 0 (SubReactor.calmly [⟨3, { read := true }⟩] .wouldBlock .wouldBlock n)
  else
    .sweeper (some true) false

/-- The execution of a server with one sub reactor and a sweeper. -/
def failingRun :
    Execution (machine TcpServer.oneSubReactor : Machine (SweptServer sortedExpirations) _) :=
  .under (machine TcpServer.oneSubReactor) (created TcpServer.oneSubReactor 1 Store.empty) failing

theorem failing_run (n : Nat) : failing (3 * n) = .run (waitFails (3 * n : Nat)) := by
  rw [failing, if_pos (by omega)]

theorem failing_iterate (n : Nat) : failing (3 * n + 1) =
    .subReactor 0
      (SubReactor.calmly [⟨3, { read := true }⟩] .wouldBlock .wouldBlock (3 * n + 1 : Nat)) := by
  rw [failing, if_neg (by omega), if_pos (by omega)]

theorem failing_sweep (n : Nat) : failing (3 * n + 2) = .sweeper (some true) false := by
  rw [failing, if_neg (by omega), if_neg (by omega)]

theorem paired_failingRun (n : Nat) : (failingRun.state n).Paired :=
  failingRun.invariant (fun _ action h => h.step TcpServer.oneSubReactor action)
    (paired_created TcpServer.oneSubReactor 1 Store.empty) n

theorem cooperative_failingRun : Cooperative failingRun where
  runs n := ⟨3 * n, by omega, _, failing_run n, by simp [waitFails, TcpServer.idly]⟩
  iterates i hi n := by
    obtain rfl : i = 0 := Nat.lt_one_iff.mp hi
    exact ⟨3 * n + 1, by omega, _, failing_iterate n⟩
  notified n i hi _ _ := by
    obtain rfl : i = 0 := Nat.lt_one_iff.mp hi
    refine ⟨3 * n + 1, by omega, _, failing_iterate n, fun r hget ready hready => ?_⟩
    cases hready
    have hcreated : (TcpServer.created TcpServer.oneSubReactor
        (Store.empty : Store sortedExpirations)).subReactors[0]? =
          some (SubReactor.created .epoll 3 Store.empty) := rfl
    obtain ⟨⟨own, hown⟩, -⟩ := parts_run TcpServer.oneSubReactor 1
      (Store.empty : Store sortedExpirations) ((List.range (3 * n + 1)).map failing)
    obtain ⟨steps, hrun⟩ := TcpServer.subReactor_run TcpServer.oneSubReactor hcreated own
    have hcontrol : ((SubReactor.created .epoll 3 (Store.empty : Store sortedExpirations)).run
        TcpServer.oneSubReactor.networkOptions steps).controlFd = 3 := by
      apply (SubReactor.controlFd_invariant TcpServer.oneSubReactor.networkOptions 3).run rfl
      intro action hmem
      cases action <;> simp [SubReactor.Action.Answers]
    change ((created TcpServer.oneSubReactor 1 Store.empty).run TcpServer.oneSubReactor
      ((List.range (3 * n + 1)).map failing)).server.subReactors[0]? = some r at hget
    rw [hown, hrun] at hget
    cases hget
    simp [SubReactor.controlEventReceived, hcontrol]
  clock t := by
    refine ⟨t.toNat, fun m hm i input hevent => ?_⟩
    change failing m = _ at hevent
    unfold failing at hevent
    split at hevent
    · cases hevent
    split at hevent
    · cases hevent
      exact Int.self_le_toNat t |>.trans (Int.ofNat_le.mpr hm)
    · cases hevent
  sweeps n := ⟨3 * n + 2, by omega, some true, false, failing_sweep n⟩
  mutex _ n := by
    have hstopped : (failingRun.state 60).sweeperStopped = true := by decide +kernel
    exact ⟨3 * (n + 20), by omega, (paired_failingRun _).free_of_stopped
      (stopped_later hstopped _ (by omega)), _, failing_run (n + 20)⟩
  passes := by
    refine ⟨0, fun m _ wake hevent => ?_⟩
    change failing m = _ at hevent
    unfold failing at hevent
    split at hevent
    · cases hevent
    split at hevent
    · cases hevent
    · cases hevent

/-- A server whose `Wait` fails returns, though nobody has asked it to stop. -/
theorem run_returns_failing : ∃ m ≥ 27, (failingRun.state m).server.point = .returned ∧
    (failingRun.state m).server.subReactors.all TcpServer.threadEnded = true ∧
    (failingRun.state m).sweeper.Stopped := by
  have hcaught : (failingRun.state 27).server.caught = true := by decide +kernel
  exact run_returns TcpServer.oneSubReactor 1 Store.empty failingRun rfl cooperative_failingRun 27
    (.inr (.inr hcaught))

end SweptServer

end TinyKv
