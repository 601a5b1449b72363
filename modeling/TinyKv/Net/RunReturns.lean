import TinyKv.Foundation.Liveness
import TinyKv.Net.StopDeadline
import TinyKv.Net.StoppedReactor

/-!
# `Run` joins its sub reactors

Once `Stop` has been called, or an exception has been caught, the thread in `Run` joins the
sub reactors and returns, whatever the clients do. Every sub reactor is notified and leaves
its loop at the latest when its deadline has passed; the sweeper, for which `Run` waits, too,
is left to another module. The threads are scheduled again and again, a notification reaches
the event loop it is meant for, and the clock goes on.
-/

namespace TinyKv

open Foundation

variable {Q : ExpirationQueue}

namespace SubReactor

/-- The iteration finds the wakeup channel readable, or fails. -/
def Heeds (input : LoopInput Q) (r : SubReactor Q) : Prop :=
  ∀ ready, input.ready = some ready → r.controlEventReceived ready = true

/-- The control requests of a reactor that has been asked to stop make it leave `Running`. -/
theorem processControlRequests_asked {r mid : SubReactor Q} {o : NetworkOptions}
    {input : LoopInput Q} (hasked : r.asked = true) (hstopped : r.state ≠ .stopped)
    (hcreated : r.state ≠ .created) (h : processControlRequests o input r = (true, mid)) :
    mid.state = .draining ∨ mid.state = .stopped := by
  unfold processControlRequests at h
  simp only at h
  split at h
  · cases h
    exact .inr rfl
  · next hforce =>
    have hstop : r.stopRequested = true := by
      rw [asked, Bool.eq_false_of_not_eq_true hforce, Bool.or_false] at hasked
      exact hasked
    rw [if_pos hstop] at h
    have houtcome := beginGracefulShutdown_outcome o input r.requestedShutdownDeadline
      { r with pendingClients := [] }
    rw [h] at houtcome
    cases houtcome with
    | repeated hstate =>
        cases hr : r.state with
        | created => exact absurd hr hcreated
        | running => exact absurd hr hstate
        | draining => exact .inl rfl
        | stopped => exact absurd hr hstopped
    | finished hstate hdrained hempty => exact .inr rfl
    | begun hstate hdrained hclients =>
        have hadopted := drainAll_state o input r.requestedShutdownDeadline
          { r with pendingClients := [] }
        rw [hdrained] at hadopted
        exact .inl hadopted

/-- A reactor that has been asked to stop leaves `Running` when it heeds the request. -/
theorem left_of_heeds {r : SubReactor Q} (hasked : r.asked = true)
    (hlive : ¬ (r.state = .created ∨ r.state = .stopped)) {input : LoopInput Q}
    (hheeds : r.Heeds input) (o : NetworkOptions) :
    (r.iterate o input).state = .draining ∨ (r.iterate o input).state = .stopped := by
  obtain ⟨hcreated, hstopped⟩ := not_or.mp hlive
  have hmid {ready : List ReadyEvent} {mid : SubReactor Q} (hready : input.ready = some ready)
      (hmid : AfterControl o input ready r mid) : mid.state = .draining ∨ mid.state = .stopped := by
    obtain ⟨hnone, -⟩ | ⟨-, -, hprocess⟩ := hmid
    · rw [hheeds ready hready] at hnone
      cases hnone
    · exact processControlRequests_asked hasked hstopped hcreated hprocess
  have houtcome := iteration_outcome o input r
  rw [iterate, if_neg hlive]
  generalize r.iteration o input = result at houtcome ⊢
  cases houtcome with
  | waitFailed | drainFailed | controlFailed | eventFailed => exact .inr rfl
  | stopped hready hafter hstate => exact .inr hstate
  | @handled ready mid handled hready hafter hstate hhandled =>
      have hkept := handleReady_state o input.io input.modityOk ready mid
      rw [hhandled, (hmid hready hafter).resolve_right hstate] at hkept
      have hadvances := advances_checkShutdownProgress
        (handled.cleanupClosedConnections input.removeOk) input
      have hdraining : (handled.cleanupClosedConnections input.removeOk).state = .draining := hkept
      rw [hdraining] at hadvances
      simp only
      generalize ((handled.cleanupClosedConnections input.removeOk).checkShutdownProgress
        input).state = after at hadvances ⊢
      cases hadvances with
      | refl => exact .inl rfl
      | finish => exact .inr rfl

/-- A draining reactor that sees its deadline pass has stopped. -/
theorem stopped_of_deadline {r : SubReactor Q} (htidy : r.Tidy) (hdraining : r.state = .draining)
    {input : LoopInput Q} (hlate : r.shutdownDeadline ≤ input.now) (o : NetworkOptions) :
    (r.iterate o input).state = .stopped := by
  have hlive : ¬ (r.state = .created ∨ r.state = .stopped) := by simp [hdraining]
  -- the control requests of a draining reactor do nothing, or stop it at once
  have hmid {ready : List ReadyEvent} {mid : SubReactor Q}
      (hmid : AfterControl o input ready r mid) (hstate : mid.state ≠ .stopped) :
      mid.state = .draining ∧ mid.shutdownDeadline = r.shutdownDeadline := by
    obtain ⟨-, rfl⟩ | ⟨-, -, hprocess⟩ := hmid
    · exact ⟨hdraining, rfl⟩
    · simp only [processControlRequests, htidy.draining hdraining, if_true] at hprocess
      split at hprocess
      · cases hprocess
        exact absurd rfl hstate
      · simp only [SubReactor.beginGracefulShutdown, hdraining, ne_eq, reduceCtorEq,
          not_false_eq_true, if_true] at hprocess
        cases hprocess
        exact ⟨rfl, rfl⟩
  have houtcome := iteration_outcome o input r
  rw [iterate, if_neg hlive]
  generalize r.iteration o input = result at houtcome ⊢
  cases houtcome with
  | waitFailed | drainFailed | controlFailed | eventFailed => rfl
  | stopped hready hafter hstate => exact hstate
  | @handled ready mid handled hready hafter hstate hhandled =>
      obtain ⟨hmidstate, hmiddeadline⟩ := hmid hafter hstate
      obtain ⟨poller, clients, store, heq⟩ := handleReady_eq o input.io input.modityOk ready mid
      rw [hhandled] at heq
      change handled = _ at heq
      have hstate' : (handled.cleanupClosedConnections input.removeOk).state = .draining := by
        change handled.state = .draining
        rw [heq]
        exact hmidstate
      have hdeadline' : (handled.cleanupClosedConnections input.removeOk).shutdownDeadline =
          r.shutdownDeadline := by
        change handled.shutdownDeadline = _
        rw [heq]
        exact hmiddeadline
      have hchecked := checkShutdownProgress_outcome
        (handled.cleanupClosedConnections input.removeOk) input
      simp only
      generalize (handled.cleanupClosedConnections input.removeOk).checkShutdownProgress input =
        after at hchecked ⊢
      cases hchecked with
      | serving hserving => exact absurd hstate' hserving
      | drained | late => rfl
      | waiting hstate hclients hearly =>
          rw [hdeadline'] at hearly
          exact absurd hlate (Int.not_le.mpr hearly)

/-- What a reactor that has left `Running` does in one step: it drains with the same deadline,
or it is stopped. -/
theorem draining_step {r : SubReactor Q} (htidy : r.Tidy) (hdraining : r.state = .draining)
    (o : NetworkOptions) (action : Action Q) :
    (r.step o action).state = .stopped ∨
      (r.step o action).state = .draining ∧
        (r.step o action).shutdownDeadline = r.shutdownDeadline := by
  cases action with
  | start addOk threadOk =>
      have hstarted : r.publishedState ≠ .created := by
        simp [htidy.published, hdraining]
      rw [SubReactor.step, start_of_started hstarted]
      exact .inr ⟨hdraining, rfl⟩
  | enqueClient fd =>
      obtain ⟨fds, heq⟩ := r.enqueClient_eq fd
      rw [SubReactor.step, heq]
      exact .inr ⟨hdraining, rfl⟩
  | stop deadline => exact .inr ⟨hdraining, rfl⟩
  | forceStop => exact .inr ⟨hdraining, rfl⟩
  | iterate input =>
      have hlive : ¬ (r.state = .created ∨ r.state = .stopped) := by simp [hdraining]
      have htimed := timed_iterate hlive o input
      rcases left_iterate (.inl hdraining) o input with hstate | hstate
      · refine .inr ⟨hstate, ?_⟩
        cases htimed with
        | kept hstate hrequested hdeadline => exact hdeadline
        | adopted hstate =>
            rw [hdraining] at hstate
            cases hstate
      · exact .inl hstate

/-- The event loop keeps its wakeup channel. -/
theorem controlFd_invariant (o : NetworkOptions) (fd : Int) :
    Invariant o (fun _ => True) fun r : SubReactor Q => r.controlFd = fd where
  event r fd' conn events input modityOk hr hlook hanswer := by
    obtain ⟨poller, modified, heq⟩ := registerInterest_eq
      { r with store := (conn.handleEvent o r.state events input r.store).2 } fd'
      (conn.handleEvent o r.state events input r.store).1 modityOk
    unfold Settled
    split
    · rw [heq]
      exact hr
    · rw [heq]
      exact hr
  drain r fd' conn modityOk hr hlook := by
    obtain ⟨poller, modified, heq⟩ := r.registerInterest_eq fd' (conn.beginDrain o) modityOk
    unfold Settled
    split
    · rw [heq]
      exact hr
    · rw [heq]
      exact hr
  cleanup r removeOk hr := hr
  close r reason hr := hr
  add r fd' addOk hr := by
    have houtcome := r.addClientInLoop_outcome fd' addOk
    generalize r.addClientInLoop fd' addOk = after at houtcome ⊢
    cases houtcome with
    | refused => exact hr
    | registered => exact hr
  throws r hr := hr
  control r state published pending stop force requested deadline readings hr := hr
  start r addOk threadOk hempty hr := by
    have houtcome := r.start_outcome addOk threadOk
    generalize r.start addOk threadOk = after at houtcome ⊢
    cases houtcome with
    | refused | unregistered | running | threadless => exact hr

end SubReactor

namespace TcpServer

/-! ### What a step does to the sub reactors -/

/-- A sub reactor has been asked to stop. -/
def Summoned (s : TcpServer Q) (i : Nat) : Prop := .stop i ∈ s.calls ∨ .forceStop i ∈ s.calls

/-- What a step of the thread in `Run` does to the sub reactors: nothing, or one call. -/
inductive RunEffect (s after : TcpServer Q) : Prop where
  | quiet (hreactors : after.subReactors = s.subReactors)
      (hsummoned : ∀ i, after.Summoned i ↔ s.Summoned i)
  | start {i : Nat} {r : SubReactor Q} (addOk threadOk : Bool)
      (hpoint : s.point = .startSubReactors i) (hget : s.subReactors[i]? = some r)
      (hreactors : after.subReactors = s.subReactors.set i (r.start addOk threadOk))
      (hsummoned : ∀ i, after.Summoned i ↔ s.Summoned i)
  | enqueClient {i : Nat} {r : SubReactor Q} (fd : Int) (hget : s.subReactors[i]? = some r)
      (hreactors : after.subReactors = s.subReactors.set i (r.enqueClient fd))
      (hsummoned : ∀ i, after.Summoned i ↔ s.Summoned i)
  | summon {i : Nat} {r r' : SubReactor Q} (hget : s.subReactors[i]? = some r)
      (hasks : r' = r.stop s.shutdownDeadline ∨ r' = r.forceStop)
      (hreactors : after.subReactors = s.subReactors.set i r')
      (hsummoned : ∀ j, after.Summoned j ↔ s.Summoned j ∨ j = i)

/-- The calls for clients and the marks of rounds summon nobody. -/
theorem summoned_append {s after : TcpServer Q} (call : MainCall)
    (hcall : ∀ i, call ≠ .stop i ∧ call ≠ .forceStop i) (h : after.calls = s.calls ++ [call])
    (i : Nat) : after.Summoned i ↔ s.Summoned i := by
  have hstop : MainCall.stop i ≠ call := (hcall i).1.symm
  have hforce : MainCall.forceStop i ≠ call := (hcall i).2.symm
  simp only [Summoned, h, List.mem_append, List.mem_singleton, hstop, hforce, or_false]

theorem summoned_stop {s after : TcpServer Q} {i : Nat} (h : after.calls = s.calls ++ [.stop i])
    (j : Nat) : after.Summoned j ↔ s.Summoned j ∨ j = i := by
  simp only [Summoned, h, List.mem_append, List.mem_singleton, MainCall.stop.injEq, reduceCtorEq,
    or_false]
  rw [or_right_comm]

theorem summoned_forceStop {s after : TcpServer Q} {i : Nat}
    (h : after.calls = s.calls ++ [.forceStop i]) (j : Nat) :
    after.Summoned j ↔ s.Summoned j ∨ j = i := by
  simp only [Summoned, h, List.mem_append, List.mem_singleton, MainCall.forceStop.injEq,
    reduceCtorEq, or_false, or_assoc]

theorem RunEffect.of_same {s after : TcpServer Q} (hreactors : after.subReactors = s.subReactors)
    (hcalls : after.calls = s.calls) : RunEffect s after :=
  .quiet hreactors fun i => by rw [Summoned, Summoned, hcalls]

/-- What one step of the thread in `Run` does. -/
theorem runEffect_runStep (c : ServerSetup) (input : RunInput) (s : TcpServer Q) :
    RunEffect s (s.runStep c input) := by
  have houtcome := runStep_outcome c input s
  generalize s.runStep c input = after at houtcome ⊢
  cases houtcome with
  | started h hget _ | startFailed h hget _ =>
      exact .start input.addOk input.threadOk h hget rfl fun _ => Iff.rfl
  | stopped h hget => exact .summon hget (.inl rfl) rfl (summoned_stop rfl)
  | forced h hget _ | rescued h hget =>
      exact .summon hget (.inr rfl) rfl (summoned_forceStop rfl)
  | unready fd | undealt fd =>
      exact .quiet rfl (summoned_append (.accept fd) (fun _ => by simp) rfl)
  | dealt fd _ _ _ hget =>
      refine .enqueClient fd hget rfl fun i => ?_
      simp [Summoned]
  | round =>
      exact .quiet rfl (summoned_append (.forceRound input.now s.shutdownDeadline)
        (fun _ => by simp) rfl)
  | goes | throws | opened | refused | served | sweeperFailed | drained | removeFailed | finished
  | forcedAll | joined => exact .of_same rfl rfl

/-! ### Where a step leads -/

/-- Where a step of the thread in `Run` leads that does not throw: the next point, and the
state. -/
inductive Turn (c : ServerSetup) (input : RunInput) (s : TcpServer Q) :
    RunPoint → ServerState → Prop where
  | opened (h : s.point = .created) : Turn c input s (.startSubReactors 0) s.state
  | started {next : Nat} {r : SubReactor Q} (h : s.point = .startSubReactors next)
      (hget : s.subReactors[next]? = some r)
      (hrunning : (r.start input.addOk input.threadOk).publishedState = .running) :
      Turn c input s (.startSubReactors (next + 1)) s.state
  | serve {next : Nat} (h : s.point = .startSubReactors next)
      (hlast : s.subReactors.length ≤ next) : Turn c input s .wait .running
  | look {ready : List ReadyEvent} (h : s.point = .wait)
      (hstate : s.state = .running → s.stopRequested = false) :
      Turn c input s (.checkSubReactorHealth 0 ready) s.state
  | drain {ready : List ReadyEvent}
      (h : s.point = .wait ∨ ∃ next, s.point = .checkSubReactorHealth next ready)
      (hstate : s.state = .running) : Turn c input s (.stopSubReactors 0 ready) .draining
  | stopNext {next : Nat} {ready : List ReadyEvent} (h : s.point = .stopSubReactors next ready)
      (hlt : next < s.subReactors.length) :
      Turn c input s (.stopSubReactors (next + 1) ready) s.state
  | stopped {next : Nat} {ready : List ReadyEvent} (h : s.point = .stopSubReactors next ready)
      (hlast : s.subReactors.length ≤ next) :
      Turn c input s (.checkSubReactorHealth 0 ready) s.state
  | checkNext {next : Nat} {ready : List ReadyEvent}
      (h : s.point = .checkSubReactorHealth next ready) (hlt : next < s.subReactors.length) :
      Turn c input s (.checkSubReactorHealth (next + 1) ready) s.state
  | checked {next : Nat} {ready : List ReadyEvent}
      (h : s.point = .checkSubReactorHealth next ready) :
      Turn c input s (.handleReady ready) s.state
  | handled (h : s.point = .handleReady []) :
      Turn c input s (.checkShutdownProgress 0 true) s.state
  | accept {e : ReadyEvent} {rest : List ReadyEvent} (h : s.point = .handleReady (e :: rest))
      (hstate : s.state = .running) : Turn c input s (.acceptNewClients 0 rest) s.state
  | skip {e : ReadyEvent} {rest : List ReadyEvent} (h : s.point = .handleReady (e :: rest)) :
      Turn c input s (.handleReady rest) s.state
  | acceptNext {n : Nat} {ready : List ReadyEvent} (h : s.point = .acceptNewClients n ready)
      (hlt : n < c.networkOptions.maxAcceptsPerEvent) :
      Turn c input s (.acceptNewClients (n + 1) ready) s.state
  | acceptAgain {n : Nat} {ready : List ReadyEvent} (h : s.point = .acceptNewClients n ready)
      (hinterrupted : input.accept = .interrupted) :
      Turn c input s (.acceptNewClients n ready) s.state
  | accepted {n : Nat} {ready : List ReadyEvent} (h : s.point = .acceptNewClients n ready) :
      Turn c input s (.handleReady ready) s.state
  | serving {next : Nat} {all : Bool} (h : s.point = .checkShutdownProgress next all)
      (hstate : s.state ≠ .draining) : Turn c input s .wait s.state
  | probe {next : Nat} {all : Bool} {r : SubReactor Q}
      (h : s.point = .checkShutdownProgress next all) (hstate : s.state = .draining)
      (hget : s.subReactors[next]? = some r) :
      Turn c input s (.checkShutdownProgress (next + 1) (all && r.publishedState == .stopped))
        s.state
  | finish {next : Nat} (h : s.point = .checkShutdownProgress next true)
      (hstate : s.state = .draining) (hlast : s.subReactors.length ≤ next) :
      Turn c input s .joinSubReactors .stopped
  | force {next : Nat} (h : s.point = .checkShutdownProgress next false)
      (hstate : s.state = .draining) :
      Turn c input s (.forceStopSubReactors 0) s.state
  | patient {next : Nat} (h : s.point = .checkShutdownProgress next false)
      (hstate : s.state = .draining) :
      Turn c input s .wait s.state
  | forceNext {next : Nat} (h : s.point = .forceStopSubReactors next)
      (hlt : next < s.subReactors.length) :
      Turn c input s (.forceStopSubReactors (next + 1)) s.state
  | forced {next : Nat} (h : s.point = .forceStopSubReactors next) : Turn c input s .wait s.state
  | rescue {next : Nat} (h : s.point = .handleException next)
      (hlt : next < s.subReactors.length) :
      Turn c input s (.handleException (next + 1)) s.state
  | rescued {next : Nat} (h : s.point = .handleException next)
      (hlast : s.subReactors.length ≤ next) : Turn c input s .joinSubReactors s.state
  | joined (h : s.point = .joinSubReactors) (hended : s.subReactors.all threadEnded = true) :
      Turn c input s .returned .stopped
  | joining (h : s.point = .joinSubReactors) (hended : s.subReactors.all threadEnded = false) :
      Turn c input s .joinSubReactors s.state
  | returned (h : s.point = .returned) : Turn c input s .returned s.state

/-- A step that throws, or one that does not. -/
inductive Ran (c : ServerSetup) (input : RunInput) (s after : TcpServer Q) : Prop where
  | refused (h : s.point = .created) (hcaught : after.caught = true)
      (hpoint : after.point = .joinSubReactors)
  | threw (hpoint : ofException s.point = False) (hcaught : after.caught = true)
      (hafter : after.point = .handleException 0)
  | turned (hcaught : after.caught = s.caught) (hstop : after.stopRequested = s.stopRequested)
      (hturn : Turn c input s after.point after.state)

/-- A step that leads to another point only. -/
theorem turn_of_goesTo {c : ServerSetup} {input : RunInput} {s : TcpServer Q} {point : RunPoint}
    (h : GoesTo c input s point) : Turn c input s point s.state := by
  cases h with
  | look h hstate => exact .look h hstate
  | stopped h hlast => exact .stopped h hlast
  | checkNext h hlt => exact .checkNext h hlt
  | checked h => exact .checked h
  | handled h => exact .handled h
  | accept h hstate => exact .accept h hstate
  | skip h => exact .skip h
  | acceptAgain h hinterrupted => exact .acceptAgain h hinterrupted
  | accepted h => exact .accepted h
  | serving h hstate => exact .serving h hstate
  | probe h hstate hget => exact .probe h hstate hget
  | patient h hstate => exact .patient h hstate
  | forceNext h hlt => exact .forceNext h hlt
  | rescued h hlast => exact .rescued h hlast
  | joining h hended => exact .joining h hended
  | returned h => exact .returned h

theorem ran_runStep (c : ServerSetup) (input : RunInput) (s : TcpServer Q) :
    Ran c input s (s.runStep c input) := by
  have houtcome := runStep_outcome c input s
  generalize s.runStep c input = after at houtcome ⊢
  cases houtcome with
  | goes h => exact .turned rfl rfl (turn_of_goesTo h)
  | throws h =>
      refine .threw ?_ rfl rfl
      obtain h | ⟨n, ready, h⟩ := h
      · rw [h]; rfl
      · rw [h]; rfl
  | opened h _ => exact .turned rfl rfl (.opened h)
  | refused h _ => exact .refused h rfl rfl
  | started h hget hrunning => exact .turned rfl rfl (.started h hget hrunning)
  | startFailed h _ _ | sweeperFailed h _ _ => exact .threw (by rw [h]; rfl) rfl rfl
  | served h hlast _ => exact .turned rfl rfl (.serve h hlast)
  | drained h hstate => exact .turned rfl rfl (.drain h hstate)
  | removeFailed h _ =>
      refine .threw ?_ rfl rfl
      obtain h | ⟨next, h⟩ := h
      · rw [h]; rfl
      · rw [h]; rfl
  | stopped h hget => exact .turned rfl rfl (.stopNext h (List.getElem?_eq_some_iff.mp hget).1)
  | unready _ h haccept _ | undealt _ h haccept _ _ | dealt _ h haccept _ _ =>
      exact .turned rfl rfl (.acceptNext h haccept)
  | finished h hstate hlast => exact .turned rfl rfl (.finish h hstate hlast)
  | round h hstate _ _ => exact .turned rfl rfl (.force h hstate)
  | forced h hget _ => exact .turned rfl rfl (.forceNext h (List.getElem?_eq_some_iff.mp hget).1)
  | forcedAll h => exact .turned rfl rfl (.forced h)
  | rescued h hget => exact .turned rfl rfl (.rescue h (List.getElem?_eq_some_iff.mp hget).1)
  | joined h hended => exact .turned rfl rfl (.joined h hended)

/-! ### The bookkeeping of a shutdown -/

/-- Which sub reactors have been started, at a point of `Run` outside the `catch` clause. -/
def StartedAt (s : TcpServer Q) : RunPoint → Prop
  | .created => ∀ r ∈ s.subReactors, r.state = .created
  | .startSubReactors next =>
      ∀ i r, i < next → s.subReactors[i]? = some r → r.state ≠ .created
  | _ => ∀ r ∈ s.subReactors, r.state ≠ .created

/-- Which sub reactors have been asked to stop, at a point of the `catch` clause. -/
def RescuedAt (s : TcpServer Q) : RunPoint → Prop
  | .handleException next => ∀ i < next, i < s.subReactors.length → s.Summoned i
  | .joinSubReactors | .returned =>
      (∀ i < s.subReactors.length, s.Summoned i) ∨ ∀ r ∈ s.subReactors, r.state = .created
  | _ => False

/-- The invariant of a server on its way to the end of `Run`. -/
structure Supervised (s : TcpServer Q) : Prop where
  orderly : s.Orderly
  asked : ∀ i r, s.Summoned i → s.subReactors[i]? = some r → r.asked = true
  started : s.caught = false → s.StartedAt s.point
  rescued : s.caught = true → s.RescuedAt s.point
  joined : s.point = .returned → s.subReactors.all threadEnded = true

/-- A sub reactor that is replaced. -/
theorem getElem?_set_cases {reactors : List (SubReactor Q)} {i j : Nat} {r' after : SubReactor Q}
    (h : (reactors.set i r')[j]? = some after) :
    j = i ∧ after = r' ∨ j ≠ i ∧ reactors[j]? = some after := by
  rw [List.getElem?_set] at h
  split at h
  · next heq =>
    split at h
    · cases h
      exact .inl ⟨heq.symm, rfl⟩
    · cases h
  · next hne => exact .inr ⟨Ne.symm hne, h⟩

/-- A request stays. -/
theorem RunEffect.summoned {s after : TcpServer Q} (h : RunEffect s after) {i : Nat}
    (hs : s.Summoned i) : after.Summoned i := by
  cases h with
  | quiet hreactors hsummoned => exact (hsummoned i).mpr hs
  | start addOk threadOk hpoint hget hreactors hsummoned => exact (hsummoned i).mpr hs
  | enqueClient fd hget hreactors hsummoned => exact (hsummoned i).mpr hs
  | summon hget hasks hreactors hsummoned => exact (hsummoned i).mpr (.inl hs)

theorem RunEffect.length {s after : TcpServer Q} (h : RunEffect s after) :
    after.subReactors.length = s.subReactors.length := by
  cases h with
  | quiet hreactors => rw [hreactors]
  | start addOk threadOk hpoint hget hreactors => rw [hreactors, List.length_set]
  | enqueClient fd hget hreactors => rw [hreactors, List.length_set]
  | summon hget hasks hreactors => rw [hreactors, List.length_set]

/-- Whoever has been asked by the thread in `Run` knows it. -/
theorem RunEffect.asked {s after : TcpServer Q} (h : RunEffect s after)
    (hs : ∀ i r, s.Summoned i → s.subReactors[i]? = some r → r.asked = true) {j : Nat}
    {r : SubReactor Q} (hsummoned : after.Summoned j) (hget : after.subReactors[j]? = some r) :
    r.asked = true := by
  cases h with
  | quiet hreactors hsame =>
      rw [hreactors] at hget
      exact hs j r ((hsame j).mp hsummoned) hget
  | start addOk threadOk hpoint hbefore hreactors hsame =>
      rw [hreactors] at hget
      obtain ⟨rfl, rfl⟩ | ⟨-, hother⟩ := getElem?_set_cases hget
      · rw [asked_start]
        exact hs j _ ((hsame j).mp hsummoned) hbefore
      · exact hs j r ((hsame j).mp hsummoned) hother
  | enqueClient fd hbefore hreactors hsame =>
      rw [hreactors] at hget
      obtain ⟨rfl, rfl⟩ | ⟨-, hother⟩ := getElem?_set_cases hget
      · rw [asked_enqueClient]
        exact hs j _ ((hsame j).mp hsummoned) hbefore
      · exact hs j r ((hsame j).mp hsummoned) hother
  | summon hbefore hasks hreactors hsame =>
      rw [hreactors] at hget
      obtain ⟨rfl, rfl⟩ | ⟨hne, hother⟩ := getElem?_set_cases hget
      · rcases hasks with rfl | rfl
        · exact Bool.true_or _
        · exact Bool.or_true _
      · exact hs j r (((hsame j).mp hsummoned).resolve_right hne) hother

/-- But for `Start`, the thread in `Run` does not change the state of a sub reactor. -/
theorem RunEffect.state {s after : TcpServer Q} (h : RunEffect s after)
    (hpoint : ∀ next, s.point ≠ .startSubReactors next) {j : Nat} {r : SubReactor Q}
    (hget : after.subReactors[j]? = some r) :
    ∃ before, s.subReactors[j]? = some before ∧ r.state = before.state := by
  cases h with
  | quiet hreactors hsame =>
      rw [hreactors] at hget
      exact ⟨r, hget, rfl⟩
  | start addOk threadOk hstart hbefore hreactors hsame => exact absurd hstart (hpoint _)
  | enqueClient fd hbefore hreactors hsame =>
      rw [hreactors] at hget
      obtain ⟨rfl, rfl⟩ | ⟨-, hother⟩ := getElem?_set_cases hget
      · obtain ⟨fds, heq⟩ := SubReactor.enqueClient_eq _ fd
        exact ⟨_, hbefore, by rw [heq]⟩
      · exact ⟨r, hother, rfl⟩
  | summon hbefore hasks hreactors hsame =>
      rw [hreactors] at hget
      obtain ⟨rfl, rfl⟩ | ⟨hne, hother⟩ := getElem?_set_cases hget
      · rcases hasks with rfl | rfl
        · exact ⟨_, hbefore, rfl⟩
        · exact ⟨_, hbefore, rfl⟩
      · exact ⟨r, hother, rfl⟩

/-- The sub reactors have been started. -/
def Launched : RunPoint → Prop
  | .created | .startSubReactors _ => False
  | _ => True

theorem startedAt_of_launched {s : TcpServer Q} {point : RunPoint} (h : Launched point) :
    s.StartedAt point ↔ ∀ r ∈ s.subReactors, r.state ≠ .created := by
  cases point with
  | created | startSubReactors => cases h
  | _ => exact Iff.rfl

theorem Launched.ne_start {point : RunPoint} (h : Launched point) (next : Nat) :
    point ≠ .startSubReactors next := by
  rintro rfl
  cases h

theorem Turn.launched {c : ServerSetup} {input : RunInput} {s : TcpServer Q} {point : RunPoint}
    {state : ServerState} (hturn : Turn c input s point state) (h : Launched s.point) :
    Launched point := by
  cases hturn with
  | opened hpoint | started hpoint =>
      rw [hpoint] at h
      cases h
  | _ => trivial

theorem RunEffect.all_state {s after : TcpServer Q} (h : RunEffect s after)
    (hpoint : ∀ next, s.point ≠ .startSubReactors next) {P : ServerState → Prop}
    (hs : ∀ r ∈ s.subReactors, P r.state) : ∀ r ∈ after.subReactors, P r.state := by
  intro r hmem
  obtain ⟨i, hget⟩ := List.getElem?_of_mem hmem
  obtain ⟨before, hbefore, hstate⟩ := h.state hpoint hget
  rw [hstate]
  exact hs before (List.mem_of_getElem? hbefore)

/-- `Start` in turn. -/
theorem startedAt_startSubReactors {s : TcpServer Q} (htidy : ∀ r ∈ s.subReactors, r.Tidy)
    {next : Nat} (h : s.StartedAt (.startSubReactors next)) (input : RunInput)
    (hcaught : (s.startSubReactors input next).caught = false) :
    (s.startSubReactors input next).StartedAt (s.startSubReactors input next).point := by
  unfold startSubReactors at hcaught ⊢
  cases hget : s.subReactors[next]? with
  | none =>
      have hlast := List.getElem?_eq_none_iff.mp hget
      simp only [hget] at hcaught ⊢
      split
      · intro r hmem
        obtain ⟨i, hi⟩ := List.getElem?_of_mem hmem
        have hlt := (List.getElem?_eq_some_iff.mp hi).1
        exact h i r (Nat.lt_of_lt_of_le hlt hlast) hi
      · next hfailed =>
        rw [if_neg hfailed] at hcaught
        cases hcaught
  | some r =>
      simp only [hget] at hcaught ⊢
      split
      · next hrunning =>
        intro i after hi hafter
        obtain ⟨rfl, rfl⟩ | ⟨hne, hother⟩ := getElem?_set_cases hafter
        · have hpublished := ((htidy r (List.mem_of_getElem? hget)).step {}
            (.start input.addOk input.threadOk)).published
          change (r.start input.addOk input.threadOk).publishedState =
            (r.start input.addOk input.threadOk).state at hpublished
          rw [← hpublished, hrunning]
          nofun
        · exact h i after (by omega) hother
      · next hfailed =>
        rw [if_neg hfailed] at hcaught
        cases hcaught

/-- Outside the `catch` clause, the sub reactors are started in turn. -/
theorem Supervised.started_runStep {s : TcpServer Q} (h : s.Supervised) {c : ServerSetup}
    {input : RunInput} (hcaught : (s.runStep c input).caught = false) :
    (s.runStep c input).StartedAt (s.runStep c input).point := by
  have hran := ran_runStep c input s
  cases hran with
  | refused hpoint hcaught' => rw [hcaught] at hcaught'; cases hcaught'
  | threw hpoint hcaught' => rw [hcaught] at hcaught'; cases hcaught'
  | turned hsame hstop hturn =>
      have hstarted := h.started (hsame.symm.trans hcaught)
      by_cases hlaunched : Launched s.point
      · rw [startedAt_of_launched hlaunched] at hstarted
        rw [startedAt_of_launched (hturn.launched hlaunched)]
        exact (runEffect_runStep c input s).all_state (P := (· ≠ .created)) hlaunched.ne_start
          hstarted
      · cases hpoint : s.point with
        | created =>
            simp only [runStep, hpoint, openSockets] at hcaught ⊢
            split
            · exact fun i r hlt => absurd hlt (Nat.not_lt_zero i)
            · next hfailed =>
              rw [if_neg hfailed] at hcaught
              cases hcaught
        | startSubReactors next =>
            rw [hpoint] at hstarted
            simp only [runStep, hpoint] at hcaught ⊢
            exact startedAt_startSubReactors h.orderly.1 hstarted input hcaught
        | _ => exact absurd (hpoint ▸ trivial) hlaunched

/-- In the `catch` clause, the sub reactors are asked to stop in turn. -/
theorem Supervised.rescued_runStep {s : TcpServer Q} (h : s.Supervised) {c : ServerSetup}
    {input : RunInput} (hcaught : (s.runStep c input).caught = true) :
    (s.runStep c input).RescuedAt (s.runStep c input).point := by
  have heffect := runEffect_runStep c input s
  have hran := ran_runStep c input s
  cases hran with
  | refused hpoint _ hafter =>
      rw [hafter]
      cases hs : s.caught with
      | true =>
          have hrescued := h.rescued hs
          rw [hpoint] at hrescued
          cases hrescued
      | false =>
          have hstarted := h.started hs
          rw [hpoint] at hstarted
          have hnext : ∀ next, s.point ≠ .startSubReactors next := by
            rw [hpoint]
            nofun
          exact .inr (heffect.all_state (P := (· = .created)) hnext hstarted)
  | threw hpoint _ hafter =>
      rw [hafter]
      exact fun i hlt => absurd hlt (Nat.not_lt_zero i)
  | turned hsame hstop hturn =>
      have hrescued := h.rescued (hsame.symm.trans hcaught)
      cases hpoint : s.point with
      | handleException next =>
          rw [hpoint] at hrescued
          simp only [runStep, hpoint, handleException]
          cases hget : s.subReactors[next]? with
          | some r =>
              intro i hlt hlength
              simp only [List.length_set, withSubReactor] at hlength
              rw [summoned_forceStop rfl]
              rcases Nat.lt_succ_iff_lt_or_eq.mp hlt with hlt | rfl
              · exact .inl (hrescued i hlt hlength)
              · exact .inr rfl
          | none =>
              have hlast := List.getElem?_eq_none_iff.mp hget
              exact .inl fun i hlt => hrescued i (Nat.lt_of_lt_of_le hlt hlast) hlt
      | joinSubReactors =>
          rw [hpoint] at hrescued
          simp only [runStep, hpoint, joinSubReactors]
          split
          · exact hrescued
          · simp only [hpoint]
            exact hrescued
      | returned =>
          rw [hpoint] at hrescued
          simp only [runStep, hpoint]
          exact hrescued
      | _ =>
          rw [hpoint] at hrescued
          cases hrescued

/-- `Run` returns when the threads of all sub reactors have ended. -/
theorem Supervised.joined_runStep {s : TcpServer Q} (h : s.Supervised) {c : ServerSetup}
    {input : RunInput} (hreturned : (s.runStep c input).point = .returned) :
    (s.runStep c input).subReactors.all threadEnded = true := by
  cases ran_runStep c input s with
  | refused _ _ hafter | threw _ _ hafter =>
      rw [hafter] at hreturned
      cases hreturned
  | turned _ _ hturn =>
      rw [hreturned] at hturn
      generalize (s.runStep c input).state = state at hturn
      cases hturn with
      | joined hpoint hended =>
          simp only [runStep, hpoint, joinSubReactors, hended, if_true]
      | returned hpoint =>
          simp only [runStep, hpoint]
          exact h.joined hpoint

/-- The thread of a sub reactor that has ended takes no more steps. -/
theorem iterate_of_ended {r : SubReactor Q} (h : threadEnded r = true) (o : NetworkOptions)
    (input : LoopInput Q) : r.iterate o input = r := by
  simp only [threadEnded, Bool.or_eq_true, beq_iff_eq] at h
  exact SubReactor.iterate_of_idle h o input

/-- An iteration of one of the sub reactors. -/
theorem Supervised.subReactor {s : TcpServer Q} (h : s.Supervised) {c : ServerSetup} {i : Nat}
    {r : SubReactor Q} (hget : s.subReactors[i]? = some r) (input : LoopInput Q)
    (horderly : (s.withSubReactor i (r.iterate c.networkOptions input)).Orderly) :
    (s.withSubReactor i (r.iterate c.networkOptions input)).Supervised where
  orderly := horderly
  asked j after hsummoned hafter := by
    obtain ⟨rfl, rfl⟩ | ⟨hne, hother⟩ := getElem?_set_cases hafter
    · rw [SubReactor.asked_iterate]
      exact h.asked j r hsummoned hget
    · exact h.asked j after hsummoned hother
  started hcaught := by
    have hstarted := h.started hcaught
    have hkept {r' : SubReactor Q} (hr : r'.state = .created) :
        (r'.iterate c.networkOptions input).state = .created := by
      rw [SubReactor.iterate_of_idle (.inl hr), hr]
    have hnot (hr : r.state ≠ .created) : (r.iterate c.networkOptions input).state ≠ .created :=
      (SubReactor.advances_iterate r c.networkOptions input).ne_created hr
    change (s.withSubReactor i (r.iterate c.networkOptions input)).StartedAt s.point
    by_cases hlaunched : Launched s.point
    · rw [startedAt_of_launched hlaunched] at hstarted ⊢
      intro after hmem
      rcases List.mem_or_eq_of_mem_set hmem with hmem | rfl
      · exact hstarted after hmem
      · exact hnot (hstarted r (List.mem_of_getElem? hget))
    · cases hpoint : s.point with
      | created =>
          rw [hpoint] at hstarted
          intro after hmem
          rcases List.mem_or_eq_of_mem_set hmem with hmem | rfl
          · exact hstarted after hmem
          · exact hkept (hstarted r (List.mem_of_getElem? hget))
      | startSubReactors next =>
          rw [hpoint] at hstarted
          intro j after hlt hafter
          obtain ⟨rfl, rfl⟩ | ⟨hne, hother⟩ := getElem?_set_cases hafter
          · exact hnot (hstarted j r hlt hget)
          · exact hstarted j after hlt hother
      | _ => exact absurd (hpoint ▸ trivial) hlaunched
  rescued hcaught := by
    have hrescued := h.rescued hcaught
    change (s.withSubReactor i (r.iterate c.networkOptions input)).RescuedAt s.point
    have hall (hs : (∀ j < s.subReactors.length, s.Summoned j) ∨
        ∀ r ∈ s.subReactors, r.state = .created) :
        (∀ j < (s.withSubReactor i (r.iterate c.networkOptions input)).subReactors.length,
          s.Summoned j) ∨
        ∀ r' ∈ (s.withSubReactor i (r.iterate c.networkOptions input)).subReactors,
          r'.state = .created := by
      refine hs.imp (fun hs j hlt => hs j (by simpa [withSubReactor] using hlt))
        fun hs r' hmem => ?_
      rcases List.mem_or_eq_of_mem_set hmem with hmem | rfl
      · exact hs r' hmem
      · have hr := hs r (List.mem_of_getElem? hget)
        rw [SubReactor.iterate_of_idle (.inl hr), hr]
    cases hpoint : s.point with
    | handleException next =>
        rw [hpoint] at hrescued
        intro j hlt hlength
        exact hrescued j hlt (by simpa [withSubReactor] using hlength)
    | joinSubReactors | returned =>
        rw [hpoint] at hrescued
        exact hall hrescued
    | _ =>
        rw [hpoint] at hrescued
        cases hrescued
  joined hreturned := by
    have hended := h.joined hreturned
    have hsame := iterate_of_ended (List.all_eq_true.mp hended r (List.mem_of_getElem? hget))
      c.networkOptions input
    obtain ⟨hlt, heq⟩ := List.getElem?_eq_some_iff.mp hget
    change (s.subReactors.set i (r.iterate c.networkOptions input)).all threadEnded = true
    rw [hsame, ← heq, List.set_getElem_self]
    exact hended

theorem Supervised.step {s : TcpServer Q} (h : s.Supervised) (c : ServerSetup)
    (action : Action Q) : (s.step c action).Supervised := by
  have horderly := h.orderly.step c action
  cases action with
  | run input =>
      exact ⟨horderly, fun j r => (runEffect_runStep c input s).asked h.asked,
        h.started_runStep, h.rescued_runStep, h.joined_runStep⟩
  | stop => exact ⟨horderly, h.asked, h.started, h.rescued, h.joined⟩
  | subReactor i input =>
      simp only [TcpServer.step] at horderly ⊢
      cases hget : s.subReactors[i]? with
      | none => exact h
      | some r =>
          rw [hget] at horderly
          exact h.subReactor hget input horderly

theorem supervised_created (c : ServerSetup) (store : Store Q) :
    (created c store : TcpServer Q).Supervised where
  orderly := orderly_run c store []
  asked i r hsummoned := by
    rcases hsummoned with hmem | hmem
    · cases hmem
    · cases hmem
  started _ := by
    intro r hmem
    obtain ⟨i, -, rfl⟩ := List.mem_map.mp hmem
    rfl
  rescued hcaught := by cases hcaught
  joined hreturned := by cases hreturned

/-- Nobody is asked to stop before all have been started. -/
theorem Supervised.launched {s : TcpServer Q} (h : s.Supervised) {i : Nat}
    (hsummoned : s.Summoned i) : Launched s.point := by
  cases h.orderly.2 with
  | starting hstate hpoint hsent hcalls =>
      rw [Summoned, hcalls] at hsummoned
      rcases hsummoned with hmem | hmem
      · cases hmem
      · cases hmem
  | running hstate hpoint =>
      cases hp : s.point with
      | created | startSubReactors =>
          rw [hp] at hpoint
          cases hpoint
      | _ => trivial
  | stopping hstate hpoint => rw [hpoint]; trivial
  | draining hstate hpoint =>
      cases hp : s.point with
      | created | startSubReactors =>
          rw [hp] at hpoint
          cases hpoint
      | _ => trivial
  | forcing hstate hpoint => rw [hpoint]; trivial
  | stopped hstate hpoint =>
      rcases hpoint with hpoint | hpoint
      · rw [hpoint]; trivial
      · rw [hpoint]; trivial
  | caught hcaught hpoint =>
      cases hp : s.point with
      | created | startSubReactors =>
          rw [hp] at hpoint
          cases hpoint
      | _ => trivial

theorem summoned_step {s : TcpServer Q} {i : Nat} (h : s.Summoned i) (c : ServerSetup)
    (action : Action Q) : (s.step c action).Summoned i := by
  cases action with
  | run input => exact (runEffect_runStep c input s).summoned h
  | stop => exact h
  | subReactor j input =>
      simp only [TcpServer.step]
      cases s.subReactors[j]? with
      | none => exact h
      | some r => exact h

/-! ### Executions -/

/-- A step of the thread in `Run` in which `accept` is not interrupted. -/
def Action.Runs (e : Action Q) : Prop :=
  ∃ input : RunInput, e = .run input ∧ input.accept ≠ .interrupted

/-- What the threads, the system calls and the clock are assumed to do. The thread in `Run`
and the event loops are scheduled again and again, and `accept` is not interrupted for ever; a
sub reactor that is asked to stop has an iteration later that finds its wakeup channel
readable; the clock passes every point. -/
structure Cooperative {c : ServerSetup} (x : Execution (machine c : Machine (TcpServer Q) _)) :
    Prop where
  runs : x.Recurs fun _ e => e.Runs
  iterates : ∀ i < (x.state 0).subReactors.length,
    x.Recurs fun _ e => ∃ input, e = .subReactor i input
  notified : ∀ n, ∀ i < (x.state 0).subReactors.length, ¬ (x.state n).Summoned i →
    (x.state (n + 1)).Summoned i → ∃ m > n, ∃ input, x.event m = .subReactor i input ∧
      ∀ r, (x.state m).subReactors[i]? = some r → r.Heeds input
  clock : ∀ t, x.Settles fun _ e => ∀ i input, e = .subReactor i input → t ≤ input.now

section Executions

variable {c : ServerSetup} {x : Execution (machine c : Machine (TcpServer Q) _)}

/-- The thread of a sub reactor has ended, or has never been created. -/
def EndedAt (i : Nat) (s : TcpServer Q) : Prop :=
  ∀ r, s.subReactors[i]? = some r → threadEnded r = true

/-- A sub reactor in a given state. -/
def At (i : Nat) (P : SubReactor Q → Prop) (s : TcpServer Q) : Prop :=
  ∃ r, s.subReactors[i]? = some r ∧ P r

/-- A stopped sub reactor stays so. -/
theorem at_stopped_later (hsupervised : ∀ n, (x.state n).Supervised) {i n : Nat}
    (h : At i (fun r => r.state = .stopped) (x.state n)) :
    ∀ m ≥ n, At i (fun r => r.state = .stopped) (x.state m) := by
  intro m hm
  induction m, hm using Nat.le_induction with
  | base => exact h
  | succ m hm ih =>
      obtain ⟨r, hget, hstopped⟩ := ih
      have htidy := (hsupervised m).orderly.1 r (List.mem_of_getElem? hget)
      have hnext := (hsupervised (m + 1)).orderly.1
      rw [x.next] at hnext ⊢
      rcases subReactor_step c hget (x.event m) with hsame | ⟨action, hstep⟩
      · exact ⟨r, hsame, hstopped⟩
      · refine ⟨_, hstep, ?_⟩
        have hpublished := (hnext _ (List.mem_of_getElem? hstep)).published
        exact hpublished.symm.trans
          (SubReactor.stopped_step htidy (htidy.published.trans hstopped) _ action).1

/-- A draining sub reactor stops, at the latest when its deadline has passed. -/
theorem leadsTo_stopped (hsupervised : ∀ n, (x.state n).Supervised) (hx : Cooperative x)
    {i : Nat} (hi : i < (x.state 0).subReactors.length) (deadline : TimePoint) :
    x.LeadsTo (At i fun r => r.state = .draining ∧ r.shutdownDeadline = deadline)
      (At i fun r => r.state = .stopped) := by
  apply Execution.LeadsTo.of_step
    (Execution.Recurs.and_settles (hx.iterates i hi) (hx.clock deadline))
  · rintro n ⟨r, hget, hdraining, rfl⟩
    have htidy := (hsupervised n).orderly.1 r (List.mem_of_getElem? hget)
    rw [x.next]
    rcases subReactor_step c hget (x.event n) with hsame | ⟨action, hstep⟩
    · exact .inl ⟨r, hsame, hdraining, rfl⟩
    · rcases SubReactor.draining_step htidy hdraining c.networkOptions action with hstate | hstate
      · exact .inr ⟨_, hstep, hstate⟩
      · exact .inl ⟨_, hstep, hstate⟩
  · rintro n ⟨r, hget, hdraining, rfl⟩ ⟨⟨input, hevent⟩, hlate⟩
    have htidy := (hsupervised n).orderly.1 r (List.mem_of_getElem? hget)
    have hlt := (List.getElem?_eq_some_iff.mp hget).1
    refine ⟨r.iterate c.networkOptions input, ?_, SubReactor.stopped_of_deadline htidy hdraining
      (hlate i input hevent) _⟩
    rw [x.next, hevent]
    change ((x.state n).step c (.subReactor i input)).subReactors[i]? = _
    simp only [TcpServer.step, hget, withSubReactor, List.getElem?_set_self hlt]

theorem summoned_later {i n : Nat} (h : (x.state n).Summoned i) :
    ∀ m ≥ n, (x.state m).Summoned i :=
  Execution.later (I := fun s : TcpServer Q => s.Summoned i)
    (fun _ action hs => summoned_step hs c action) h

/-- The time at which a sub reactor is first asked to stop. -/
theorem first_summons (hstart : ∀ i, ¬ (x.state 0).Summoned i) {i n : Nat}
    (h : (x.state n).Summoned i) :
    ∃ m < n, ¬ (x.state m).Summoned i ∧ (x.state (m + 1)).Summoned i := by
  induction n with
  | zero => exact absurd h (hstart i)
  | succ n ih =>
      by_cases hbefore : (x.state n).Summoned i
      · obtain ⟨m, hm, hfirst⟩ := ih hbefore
        exact ⟨m, by omega, hfirst⟩
      · exact ⟨n, by omega, hbefore, h⟩

/-- In the `catch` clause, a sub reactor without a thread gets none any more. -/
theorem created_later (hsupervised : ∀ n, (x.state n).Supervised) {i n : Nat}
    (hcaught : (x.state n).caught = true)
    (h : At i (fun r => r.state = .created) (x.state n)) :
    ∀ m ≥ n, (x.state m).caught = true ∧ At i (fun r => r.state = .created) (x.state m) := by
  intro m hm
  induction m, hm using Nat.le_induction with
  | base => exact ⟨hcaught, h⟩
  | succ m hm ih =>
      obtain ⟨hcaught, r, hget, hcreated⟩ := ih
      have hrescued := (hsupervised m).rescued hcaught
      have hpoint : ∀ next, (x.state m).point ≠ .startSubReactors next := by
        intro next hpoint
        rw [hpoint] at hrescued
        cases hrescued
      rw [x.next]
      cases hevent : x.event m with
      | run input =>
          change ((x.state m).runStep c input).caught = true ∧ At i _ ((x.state m).runStep c input)
          have hran := ran_runStep c input (x.state m)
          have heffect := runEffect_runStep c input (x.state m)
          have hlt := (List.getElem?_eq_some_iff.mp hget).1
          have hafter := List.getElem?_eq_getElem (heffect.length ▸ hlt)
          obtain ⟨before, hbefore, hstate⟩ := heffect.state hpoint hafter
          rw [hget] at hbefore
          cases hbefore
          refine ⟨?_, _, hafter, hstate.trans hcreated⟩
          cases hran with
          | refused _ hcaught' _ => exact hcaught'
          | threw _ hcaught' _ => exact hcaught'
          | turned hsame _ _ => exact hsame.trans hcaught
      | stop => exact ⟨hcaught, r, hget, hcreated⟩
      | subReactor j input =>
          change ((x.state m).step c (.subReactor j input)).caught = true ∧
            At i _ ((x.state m).step c (.subReactor j input))
          simp only [TcpServer.step]
          cases hj : (x.state m).subReactors[j]? with
          | none => exact ⟨hcaught, r, hget, hcreated⟩
          | some r' =>
              refine ⟨hcaught, ?_⟩
              by_cases hij : j = i
              · subst hij
                rw [hget] at hj
                cases hj
                have hlt := (List.getElem?_eq_some_iff.mp hget).1
                refine ⟨_, List.getElem?_set_self hlt, ?_⟩
                rw [SubReactor.iterate_of_idle (.inl hcreated)]
                exact hcreated
              · exact ⟨r, (List.getElem?_set_ne hij).trans hget, hcreated⟩

theorem endedAt_of_at {i : Nat} {s : TcpServer Q}
    (h : At i (fun r => r.state = .created ∨ r.state = .stopped) s) : EndedAt i s := by
  obtain ⟨r, hget, hstate⟩ := h
  intro r' hget'
  rw [hget] at hget'
  cases hget'
  rcases hstate with hstate | hstate
  · simp [threadEnded, hstate]
  · simp [threadEnded, hstate]

theorem At.mono {i : Nat} {P P' : SubReactor Q → Prop} {s : TcpServer Q} (h : At i P s)
    (himp : ∀ r, P r → P' r) : At i P' s := by
  obtain ⟨r, hget, hp⟩ := h
  exact ⟨r, hget, himp r hp⟩

theorem length_eq (n m : Nat) :
    (x.state n).subReactors.length = (x.state m).subReactors.length := by
  have hstart : ∀ k, (x.state k).subReactors.length = (x.state 0).subReactors.length :=
    x.invariant (I := fun s => s.subReactors.length = (x.state 0).subReactors.length)
      (fun s e h => (length_subReactors_step c s e).trans h) rfl
  exact (hstart n).trans (hstart m).symm

/-- The thread of a sub reactor that is asked to stop ends. -/
theorem summoned_ends (hsupervised : ∀ n, (x.state n).Supervised)
    (hstart : ∀ i, ¬ (x.state 0).Summoned i) (hx : Cooperative x) {i n : Nat}
    (hi : i < (x.state 0).subReactors.length) (h : (x.state n).Summoned i) :
    ∃ k, ∀ m ≥ k, EndedAt i (x.state m) := by
  obtain ⟨first, -, hfirst⟩ := first_summons hstart h
  obtain ⟨m, hm, input, hevent, hheeds⟩ := hx.notified first i hi hfirst.1 hfirst.2
  have hsummoned := summoned_later hfirst.2 m hm
  rw [length_eq 0 m] at hi
  have hget := List.getElem?_eq_getElem hi
  generalize (x.state m).subReactors[i] = r at hget
  have hasked := (hsupervised m).asked i r hsummoned hget
  have hstopped {k : Nat} (hk : At i (fun r => r.state = .stopped) (x.state k)) :
      ∃ k, ∀ m ≥ k, EndedAt i (x.state m) :=
    ⟨k, fun m hm => endedAt_of_at ((at_stopped_later hsupervised hk m hm).mono fun _ => .inr)⟩
  by_cases hlive : r.state = .created ∨ r.state = .stopped
  · rcases hlive with hcreated | hs
    · -- only an exception leaves a sub reactor without a thread
      have hcaught : (x.state m).caught = true := by
        by_contra hnot
        have hall := (hsupervised m).started (Bool.eq_false_of_not_eq_true hnot)
        rw [startedAt_of_launched ((hsupervised m).launched hsummoned)] at hall
        exact hall r (List.mem_of_getElem? hget) hcreated
      exact ⟨m, fun k hk => endedAt_of_at
        ((created_later hsupervised hcaught ⟨r, hget, hcreated⟩ k hk).2.mono fun _ => .inl)⟩
    · exact hstopped ⟨r, hget, hs⟩
  · have hnext : (x.state (m + 1)).subReactors[i]? = some (r.iterate c.networkOptions input) := by
      rw [x.next, hevent]
      change ((x.state m).step c (.subReactor i input)).subReactors[i]? = _
      simp only [TcpServer.step, hget, withSubReactor, List.getElem?_set_self hi]
    rcases SubReactor.left_of_heeds hasked hlive (hheeds r hget) c.networkOptions with hs | hs
    · obtain ⟨k, -, hk⟩ :=
        leadsTo_stopped hsupervised hx (length_eq 0 m ▸ hi) _ (m + 1) ⟨_, hnext, hs, rfl⟩
      exact hstopped hk
    · exact hstopped ⟨_, hnext, hs⟩

/-- The threads of all sub reactors end when all have been asked to stop. -/
theorem all_end (hends : ∀ i < (x.state 0).subReactors.length,
      ∃ k, ∀ m ≥ k, EndedAt i (x.state m)) :
    ∃ k, ∀ m ≥ k, (x.state m).subReactors.all threadEnded = true := by
  have hbound : ∀ l, l ≤ (x.state 0).subReactors.length →
      ∃ k, ∀ m ≥ k, ∀ i < l, EndedAt i (x.state m) := by
    intro l
    induction l with
    | zero => exact fun _ => ⟨0, fun _ _ i hi => absurd hi (Nat.not_lt_zero i)⟩
    | succ l ih =>
        intro hl
        obtain ⟨k, hk⟩ := ih (by omega)
        obtain ⟨k', hk'⟩ := hends l hl
        refine ⟨max k k', fun m hm i hi => ?_⟩
        rcases Nat.lt_succ_iff_lt_or_eq.mp hi with hi | rfl
        · exact hk m (le_trans (le_max_left ..) hm) i hi
        · exact hk' m (le_trans (le_max_right ..) hm)
  obtain ⟨k, hk⟩ := hbound _ le_rfl
  refine ⟨k, fun m hm => List.all_eq_true.mpr fun r hmem => ?_⟩
  obtain ⟨i, hget⟩ := List.getElem?_of_mem hmem
  have hlt := (List.getElem?_eq_some_iff.mp hget).1
  exact hk m hm i (length_eq m 0 ▸ hlt) r hget

/-! ### The phases of `Run` -/

/-- Only the thread in `Run` moves the point, the state and the mark of an exception. -/
theorem step_other {s : TcpServer Q} {action : Action Q} (h : ∀ input, action ≠ .run input) :
    (s.step c action).point = s.point ∧ (s.step c action).state = s.state ∧
      (s.step c action).caught = s.caught ∧
      (s.stopRequested = true → (s.step c action).stopRequested = true) := by
  cases action with
  | run input => exact absurd rfl (h input)
  | stop => exact ⟨rfl, rfl, rfl, fun _ => rfl⟩
  | subReactor i input =>
      simp only [TcpServer.step]
      cases s.subReactors[i]? with
      | none => exact ⟨rfl, rfl, rfl, id⟩
      | some r => exact ⟨rfl, rfl, rfl, id⟩

/-- Turns that lower a rank end a phase; a turn that is interrupted is taken again. -/
theorem leadsTo_of_turns (hruns : x.Recurs fun _ e => e.Runs)
    {P P' : TcpServer Q → Prop} (rank : RunPoint → Nat)
    (hother : ∀ n, P (x.state n) → (∀ input, x.event n ≠ .run input) → P (x.state (n + 1)))
    (hrun : ∀ n input, P (x.state n) → x.event n = .run input → P' (x.state (n + 1)) ∨
      P (x.state (n + 1)) ∧ (rank (x.state (n + 1)).point < rank (x.state n).point ∨
        (x.state (n + 1)).point = (x.state n).point ∧ input.accept = .interrupted)) :
    x.LeadsTo P P' := by
  apply Execution.LeadsTo.of_rank fun s => rank s.point
  intro w
  apply Execution.LeadsTo.of_step hruns
  · rintro n ⟨hp, hrank⟩
    by_cases he : ∃ input, x.event n = .run input
    · obtain ⟨input, hevent⟩ := he
      rcases hrun n input hp hevent with hdone | ⟨hnext, hlt | ⟨hsame, -⟩⟩
      · exact .inr (.inl hdone)
      · exact .inr (.inr ⟨hnext, hrank ▸ hlt⟩)
      · exact .inl ⟨hnext, (congrArg rank hsame).trans hrank⟩
    · have hnot : ∀ input, x.event n ≠ .run input := fun input hevent => he ⟨input, hevent⟩
      have hpoint : (x.state (n + 1)).point = (x.state n).point := by
        rw [x.next]
        exact (step_other hnot).1
      exact .inl ⟨hother n hp hnot, (congrArg rank hpoint).trans hrank⟩
  · rintro n ⟨hp, hrank⟩ ⟨input, hevent, haccept⟩
    rcases hrun n input hp hevent with hdone | ⟨hnext, hlt | ⟨-, hinterrupted⟩⟩
    · exact .inl hdone
    · exact .inr ⟨hnext, hrank ▸ hlt⟩
    · exact absurd hinterrupted haccept

/-- The points of each state, outside the `catch` clause. -/
def Phase : ServerState → RunPoint → Prop
  | .created, .created | .created, .startSubReactors _ => True
  | .running, .wait | .running, .checkSubReactorHealth _ _ | .running, .handleReady _
  | .running, .acceptNewClients _ _ | .running, .checkShutdownProgress _ _ => True
  | .draining, .wait | .draining, .stopSubReactors _ _ | .draining, .checkSubReactorHealth _ _
  | .draining, .handleReady _ | .draining, .checkShutdownProgress _ _
  | .draining, .forceStopSubReactors _ => True
  | .stopped, .joinSubReactors | .stopped, .returned => True
  | _, _ => False

theorem Supervised.phase {s : TcpServer Q} (h : s.Supervised) (hcaught : s.caught = false) :
    Phase s.state s.point := by
  cases h.orderly.2 with
  | starting hstate hpoint =>
      rw [hstate]
      rcases hpoint with hpoint | ⟨next, hpoint⟩
      · rw [hpoint]; trivial
      · rw [hpoint]; trivial
  | running hstate hpoint =>
      rw [hstate]
      cases hp : s.point with
      | wait | checkSubReactorHealth | handleReady | acceptNewClients | checkShutdownProgress =>
          trivial
      | _ =>
          rw [hp] at hpoint
          cases hpoint
  | stopping hstate hpoint =>
      rw [hstate, hpoint]
      trivial
  | draining hstate hpoint =>
      rw [hstate]
      cases hp : s.point with
      | wait | checkSubReactorHealth | handleReady | checkShutdownProgress => trivial
      | _ =>
          rw [hp] at hpoint
          cases hpoint
  | forcing hstate hpoint =>
      rw [hstate, hpoint]
      trivial
  | stopped hstate hpoint =>
      rw [hstate]
      rcases hpoint with hpoint | hpoint
      · rw [hpoint]; trivial
      · rw [hpoint]; trivial
  | caught hcaught' =>
      rw [hcaught] at hcaught'
      cases hcaught'

/-- How far the loop of `Run` is from its next `Wait`, with `reactors` sub reactors. -/
def servingRank (c : ServerSetup) (reactors : Nat) : RunPoint → Nat
  | .created => reactors + 3
  | .startSubReactors next => reactors - next + 2
  | .checkSubReactorHealth next ready =>
      ready.length * (c.networkOptions.maxAcceptsPerEvent + 2) + (reactors - next) + 4
  | .handleReady ready => ready.length * (c.networkOptions.maxAcceptsPerEvent + 2) + 3
  | .acceptNewClients n ready =>
      ready.length * (c.networkOptions.maxAcceptsPerEvent + 2) +
        (c.networkOptions.maxAcceptsPerEvent - n) + 4
  | .checkShutdownProgress _ _ => 2
  | .wait => 1
  | _ => 0

/-- The server has been asked to stop, and has not begun to. -/
def StopPending (s : TcpServer Q) : Prop :=
  s.caught = false ∧ s.stopRequested = true ∧ (s.state = .created ∨ s.state = .running)

/-- One turn of a server that has been asked to stop. -/
theorem turn_stopPending {s : TcpServer Q} (h : s.Supervised) (hpending : s.StopPending)
    {input : RunInput} {point : RunPoint} {state : ServerState}
    (hturn : Turn c input s point state) :
    state = .draining ∨ (state = .created ∨ state = .running) ∧
      (servingRank c s.subReactors.length point < servingRank c s.subReactors.length s.point ∨
        point = s.point ∧ input.accept = .interrupted) := by
  obtain ⟨hcaught, hstop, hstate⟩ := hpending
  have hphase := h.phase hcaught
  cases hturn with
  | drain => exact .inl rfl
  | serve hpoint hlast =>
      refine .inr ⟨.inr rfl, .inl ?_⟩
      simp only [servingRank, hpoint]
      omega
  | look hpoint hnone =>
      rcases hstate with hs | hs
      · rw [hpoint, hs] at hphase
        cases hphase
      · rw [hnone hs] at hstop
        cases hstop
  | acceptAgain hpoint hinterrupted => exact .inr ⟨hstate, .inr ⟨hpoint.symm, hinterrupted⟩⟩
  | accept hpoint | skip hpoint =>
      refine .inr ⟨hstate, .inl ?_⟩
      simp only [servingRank, hpoint, List.length_cons, Nat.succ_mul]
      omega
  | started hpoint hget =>
      have hlt := (List.getElem?_eq_some_iff.mp hget).1
      refine .inr ⟨hstate, .inl ?_⟩
      simp only [servingRank, hpoint]
      omega
  | opened hpoint | checkNext hpoint | checked hpoint | handled hpoint | acceptNext hpoint
  | accepted hpoint | serving hpoint =>
      refine .inr ⟨hstate, .inl ?_⟩
      simp only [servingRank, hpoint]
      omega
  | stopNext hpoint | stopped hpoint | forceNext hpoint | forced hpoint | rescue hpoint
  | rescued hpoint | joined hpoint | joining hpoint | returned hpoint =>
      rcases hstate with hs | hs
      all_goals
        rw [hpoint, hs] at hphase
        cases hphase
  | probe hpoint hdraining | finish hpoint hdraining | force hpoint hdraining
  | patient hpoint hdraining =>
      rcases hstate with hs | hs
      all_goals
        rw [hdraining] at hs
        cases hs

/-- A server that has been asked to stop begins to, unless it catches an exception. -/
theorem leadsTo_draining (hsupervised : ∀ n, (x.state n).Supervised)
    (hruns : x.Recurs fun _ e => e.Runs) :
    x.LeadsTo StopPending fun s => s.caught = true ∨ s.caught = false ∧ s.state = .draining := by
  apply leadsTo_of_turns hruns (servingRank c (x.state 0).subReactors.length)
  · rintro n ⟨hcaught, hstop, hstate⟩ hnot
    obtain ⟨-, hsame, hkept, hstops⟩ := step_other (c := c) (s := x.state n) hnot
    rw [x.next]
    exact ⟨hkept.trans hcaught, hstops hstop, hsame ▸ hstate⟩
  · intro n input hpending hevent
    have hnext : x.state (n + 1) = (x.state n).runStep c input := by
      rw [x.next, hevent]
      rfl
    rw [hnext]
    cases ran_runStep c input (x.state n) with
    | refused _ hcaught => exact .inl (.inl hcaught)
    | threw _ hcaught => exact .inl (.inl hcaught)
    | turned hsame hstop hturn =>
        have hcaught := hsame.trans hpending.1
        rcases turn_stopPending (hsupervised n) hpending hturn with hdraining | ⟨hstate, hrank⟩
        · exact .inl (.inr ⟨hcaught, hdraining⟩)
        · rw [length_eq n 0] at hrank
          exact .inr ⟨⟨hcaught, hstop.trans hpending.2.1, hstate⟩, hrank⟩

/-- Every sub reactor has been asked to stop. -/
def AllSummoned (s : TcpServer Q) : Prop := ∀ i < s.subReactors.length, s.Summoned i

/-- How far the loop of `Run` is from its next `Wait`, in a shutdown. -/
def drainingRank (reactors : Nat) : RunPoint → Nat
  | .stopSubReactors next ready => 3 * reactors + ready.length + (reactors - next) + 5
  | .checkSubReactorHealth next ready => 2 * reactors + ready.length + (reactors - next) + 4
  | .handleReady ready => 2 * reactors + ready.length + 3
  | .checkShutdownProgress next _ => reactors + (reactors - next) + 2
  | .forceStopSubReactors next => reactors - next + 1
  | _ => 0

/-- One turn of a server in a shutdown. -/
theorem turn_draining {s : TcpServer Q} (h : s.Supervised) (hcaught : s.caught = false)
    (hdraining : s.state = .draining) (hwait : s.point ≠ .wait) {input : RunInput}
    {point : RunPoint} {state : ServerState} (hturn : Turn c input s point state) :
    point = .joinSubReactors ∨ state = .draining ∧
      (point = .wait ∨
        drainingRank s.subReactors.length point < drainingRank s.subReactors.length s.point) := by
  have hphase := h.phase hcaught
  rw [hdraining] at hphase
  cases hturn with
  | finish => exact .inl rfl
  | forced | patient => exact .inr ⟨hdraining, .inl rfl⟩
  | serving hpoint hstate => exact absurd hdraining hstate
  | look hpoint => exact absurd hpoint hwait
  | drain hpoint hstate | accept hpoint hstate =>
      rw [hdraining] at hstate
      cases hstate
  | probe hpoint hstate hget =>
      have hlt := (List.getElem?_eq_some_iff.mp hget).1
      refine .inr ⟨hdraining, .inr ?_⟩
      simp only [drainingRank, hpoint]
      omega
  | stopNext hpoint | stopped hpoint | checkNext hpoint | checked hpoint | handled hpoint
  | skip hpoint | force hpoint | forceNext hpoint =>
      refine .inr ⟨hdraining, .inr ?_⟩
      simp only [drainingRank, hpoint, List.length_cons]
      omega
  | opened hpoint | started hpoint | serve hpoint | acceptNext hpoint | acceptAgain hpoint
  | accepted hpoint | rescue hpoint | rescued hpoint | joined hpoint | joining hpoint
  | returned hpoint =>
      rw [hpoint] at hphase
      cases hphase

theorem state_next_run {n : Nat} {input : RunInput} (hevent : x.event n = .run input) :
    x.state (n + 1) = (x.state n).runStep c input := by
  rw [x.next, hevent]
  rfl

/-- The end of a shutdown, or an exception. -/
def Ending (s : TcpServer Q) : Prop := s.caught = true ∨ s.point = .joinSubReactors

/-- The server is in a shutdown, and has caught no exception. -/
def InShutdown (s : TcpServer Q) : Prop := s.caught = false ∧ s.state = .draining

theorem InShutdown.other {n : Nat} (h : (x.state n).InShutdown)
    (hnot : ∀ input, x.event n ≠ .run input) :
    (x.state (n + 1)).InShutdown ∧ (x.state (n + 1)).point = (x.state n).point := by
  obtain ⟨hpoint, hsame, hkept, -⟩ := step_other (c := c) (s := x.state n) hnot
  rw [x.next]
  exact ⟨⟨hkept.trans h.1, hsame.trans h.2⟩, hpoint⟩

/-- A server in a shutdown comes to `Wait` again, unless it ends before. -/
theorem leadsTo_wait (hsupervised : ∀ n, (x.state n).Supervised)
    (hruns : x.Recurs fun _ e => e.Runs) :
    x.LeadsTo InShutdown fun s => s.Ending ∨ s.InShutdown ∧ s.point = .wait := by
  apply Execution.LeadsTo.of_cases (E := fun s => s.point = .wait)
  · exact Execution.LeadsTo.of_imp fun n h => .inr h
  · apply leadsTo_of_turns hruns (drainingRank (x.state 0).subReactors.length)
    · rintro n ⟨hshutdown, hwait⟩ hnot
      obtain ⟨hnext, hpoint⟩ := hshutdown.other hnot
      exact ⟨hnext, hpoint ▸ hwait⟩
    · rintro n input ⟨hshutdown, hwait⟩ hevent
      rw [state_next_run hevent]
      cases ran_runStep c input (x.state n) with
      | refused _ hcaught => exact .inl (.inl (.inl hcaught))
      | threw _ hcaught => exact .inl (.inl (.inl hcaught))
      | turned hsame hstop hturn =>
          have hcaught := hsame.trans hshutdown.1
          rcases turn_draining (hsupervised n) hshutdown.1 hshutdown.2 hwait hturn with
            hjoin | ⟨hstate, hnext⟩
          · exact .inl (.inl (.inr hjoin))
          · by_cases hpoint : ((x.state n).runStep c input).point = .wait
            · exact .inl (.inr ⟨⟨hcaught, hstate⟩, hpoint⟩)
            · have hlt := hnext.resolve_left hpoint
              rw [length_eq n 0] at hlt
              exact .inr ⟨⟨⟨hcaught, hstate⟩, hpoint⟩, .inl hlt⟩

/-- The points after `Wait` at which no sub reactor has been found running. -/
def Checking : RunPoint → Prop
  | .checkSubReactorHealth _ _ | .handleReady _ | .checkShutdownProgress _ true => True
  | _ => False

/-- The turn after `Wait` in a shutdown. -/
theorem turn_wait {s : TcpServer Q} (hdraining : s.state = .draining) (hwait : s.point = .wait)
    {input : RunInput} {point : RunPoint} {state : ServerState}
    (hturn : Turn c input s point state) : state = .draining ∧ Checking point := by
  cases hturn with
  | look => exact ⟨hdraining, trivial⟩
  | drain _ hstate =>
      rw [hdraining] at hstate
      cases hstate
  | opened hpoint | started hpoint | serve hpoint | stopNext hpoint | stopped hpoint
  | checkNext hpoint | checked hpoint | handled hpoint | accept hpoint | skip hpoint
  | acceptNext hpoint | acceptAgain hpoint | accepted hpoint | serving hpoint | probe hpoint
  | finish hpoint | force hpoint | patient hpoint | forceNext hpoint | forced hpoint
  | rescue hpoint | rescued hpoint | joined hpoint | joining hpoint | returned hpoint =>
      rw [hwait] at hpoint
      cases hpoint

/-- A turn after `Wait`, once the sub reactors have stopped. -/
theorem turn_checking {s : TcpServer Q} (hdraining : s.state = .draining)
    (hstopped : ∀ r ∈ s.subReactors, r.publishedState = .stopped) (hchecking : Checking s.point)
    {input : RunInput} {point : RunPoint} {state : ServerState}
    (hturn : Turn c input s point state) :
    point = .joinSubReactors ∨ state = .draining ∧ Checking point ∧
      drainingRank s.subReactors.length point < drainingRank s.subReactors.length s.point := by
  cases hturn with
  | finish => exact .inl rfl
  | checkNext hpoint | checked hpoint | handled hpoint | skip hpoint =>
      refine .inr ⟨hdraining, trivial, ?_⟩
      simp only [drainingRank, hpoint, List.length_cons]
      omega
  | @probe next all r hpoint hstate hget =>
      have hlt := (List.getElem?_eq_some_iff.mp hget).1
      have hr := hstopped r (List.mem_of_getElem? hget)
      have hall : all = true := by
        cases all with
        | true => rfl
        | false =>
            rw [hpoint] at hchecking
            cases hchecking
      refine .inr ⟨hdraining, ?_, ?_⟩
      · rw [hall, hr]
        trivial
      · simp only [drainingRank, hpoint]
        omega
  | serving _ hstate => exact absurd hdraining hstate
  | drain _ hstate | accept _ hstate =>
      rw [hdraining] at hstate
      cases hstate
  | opened hpoint | started hpoint | serve hpoint | look hpoint | stopNext hpoint
  | stopped hpoint | acceptNext hpoint | acceptAgain hpoint | accepted hpoint | force hpoint
  | patient hpoint | forceNext hpoint | forced hpoint | rescue hpoint | rescued hpoint
  | joined hpoint | joining hpoint | returned hpoint =>
      rw [hpoint] at hchecking
      cases hchecking

/-- A shutdown that has come to `Wait` looks at the sub reactors again. -/
theorem leadsTo_checking (hruns : x.Recurs fun _ e => e.Runs) :
    x.LeadsTo (fun s => s.InShutdown ∧ s.point = .wait) fun s =>
      s.Ending ∨ s.InShutdown ∧ Checking s.point := by
  apply leadsTo_of_turns hruns fun _ => 0
  · rintro n ⟨hshutdown, hwait⟩ hnot
    obtain ⟨hnext, hpoint⟩ := hshutdown.other hnot
    exact ⟨hnext, hpoint.trans hwait⟩
  · rintro n input ⟨hshutdown, hwait⟩ hevent
    rw [state_next_run hevent]
    cases ran_runStep c input (x.state n) with
    | refused _ hcaught => exact .inl (.inl (.inl hcaught))
    | threw _ hcaught => exact .inl (.inl (.inl hcaught))
    | turned hsame hstop hturn =>
        obtain ⟨hstate, hchecking⟩ := turn_wait hshutdown.2 hwait hturn
        exact .inl (.inr ⟨⟨hsame.trans hshutdown.1, hstate⟩, hchecking⟩)

/-- A sub reactor of a shutdown whose thread has ended has published `Stopped`. -/
theorem Supervised.stopped_of_ended {s : TcpServer Q} (h : s.Supervised)
    (hshutdown : s.InShutdown) (hended : s.subReactors.all threadEnded = true) :
    ∀ r ∈ s.subReactors, r.publishedState = .stopped := by
  intro r hmem
  have hlaunched : Launched s.point := by
    have hphase := h.phase hshutdown.1
    rw [hshutdown.2] at hphase
    cases hpoint : s.point with
    | created | startSubReactors =>
        rw [hpoint] at hphase
        cases hphase
    | _ => trivial
  have hstarted := (startedAt_of_launched hlaunched).mp (h.started hshutdown.1) r hmem
  have hthread := List.all_eq_true.mp hended r hmem
  simp only [threadEnded, Bool.or_eq_true, beq_iff_eq] at hthread
  exact (h.orderly.1 r hmem).published.trans (hthread.resolve_left hstarted)

/-- Once the threads of the sub reactors have ended, a shutdown ends. -/
theorem leadsTo_ending (hsupervised : ∀ n, (x.state n).Supervised)
    (hruns : x.Recurs fun _ e => e.Runs)
    (hended : ∀ n, (x.state n).subReactors.all threadEnded = true) :
    x.LeadsTo InShutdown Ending := by
  have hcheck : x.LeadsTo (fun s => s.InShutdown ∧ Checking s.point) Ending := by
    apply leadsTo_of_turns hruns (drainingRank (x.state 0).subReactors.length)
    · rintro n ⟨hshutdown, hchecking⟩ hnot
      obtain ⟨hnext, hpoint⟩ := hshutdown.other hnot
      exact ⟨hnext, hpoint ▸ hchecking⟩
    · rintro n input ⟨hshutdown, hchecking⟩ hevent
      rw [state_next_run hevent]
      cases ran_runStep c input (x.state n) with
      | refused _ hcaught => exact .inl (.inl hcaught)
      | threw _ hcaught => exact .inl (.inl hcaught)
      | turned hsame hstop hturn =>
          have hstopped := (hsupervised n).stopped_of_ended hshutdown (hended n)
          rcases turn_checking hshutdown.2 hstopped hchecking hturn with
            hjoin | ⟨hstate, hnext, hlt⟩
          · exact .inl (.inr hjoin)
          · rw [length_eq n 0] at hlt
            exact .inr ⟨⟨⟨hsame.trans hshutdown.1, hstate⟩, hnext⟩, .inl hlt⟩
  apply (leadsTo_wait hsupervised hruns).trans
  intro n hn
  rcases hn with hending | hwait
  · exact ⟨n, le_rfl, hending⟩
  · obtain ⟨m, hm, hending | hchecking⟩ := leadsTo_checking hruns n hwait
    · exact ⟨m, hm, hending⟩
    · obtain ⟨k, hk, hending⟩ := hcheck m hchecking
      exact ⟨k, le_trans hm hk, hending⟩

/-- In a shutdown that has come to `Wait`, all sub reactors have been asked to stop. -/
theorem Supervised.allSummoned {s : TcpServer Q} (h : s.Supervised) (hshutdown : s.InShutdown)
    (hwait : s.point = .wait) : s.AllSummoned := by
  cases h.orderly.2 with
  | draining hstate hpoint hcalls hforced =>
      obtain ⟨clients, heq, -⟩ := hcalls
      intro i hlt
      refine .inl ?_
      rw [heq]
      exact List.mem_append_left _
        (List.mem_append_right _ (List.mem_map_of_mem (List.mem_range.mpr hlt)))
  | starting hstate => exact absurd (hstate.symm.trans hshutdown.2) nofun
  | running hstate => exact absurd (hstate.symm.trans hshutdown.2) nofun
  | stopping hstate hpoint => exact absurd (hpoint.symm.trans hwait) nofun
  | forcing hstate hpoint => exact absurd (hpoint.symm.trans hwait) nofun
  | stopped hstate => exact absurd (hstate.symm.trans hshutdown.2) nofun
  | caught hcaught => exact absurd (hcaught.symm.trans hshutdown.1) nofun

/-- A shutdown goes on, or ends. -/
theorem InShutdown.next {n : Nat} (hsupervised : (x.state n).Supervised)
    (h : (x.state n).InShutdown) :
    (x.state (n + 1)).InShutdown ∨ (x.state (n + 1)).Ending := by
  cases hevent : x.event n with
  | run input =>
      rw [state_next_run hevent]
      cases ran_runStep c input (x.state n) with
      | refused _ hcaught => exact .inr (.inl hcaught)
      | threw _ hcaught => exact .inr (.inl hcaught)
      | turned hsame hstop hturn =>
          have hcaught := hsame.trans h.1
          by_cases hwait : (x.state n).point = .wait
          · exact .inl ⟨hcaught, (turn_wait h.2 hwait hturn).1⟩
          · rcases turn_draining hsupervised h.1 h.2 hwait hturn with hjoin | ⟨hstate, -⟩
            · exact .inr (.inr hjoin)
            · exact .inl ⟨hcaught, hstate⟩
  | stop | subReactor => exact .inl (h.other (by simp [hevent])).1

/-- A shutdown ends. -/
theorem shutdown_ends (hsupervised : ∀ n, (x.state n).Supervised)
    (hstart : ∀ i, ¬ (x.state 0).Summoned i) (hx : Cooperative x) :
    x.LeadsTo InShutdown Ending := by
  apply (leadsTo_wait hsupervised hx.runs).trans
  intro n hn
  rcases hn with hending | ⟨hshutdown, hwait⟩
  · exact ⟨n, le_rfl, hending⟩
  · have hall := (hsupervised n).allSummoned hshutdown hwait
    obtain ⟨k, hk⟩ := all_end (x := x) fun i hi =>
      summoned_ends hsupervised hstart hx hi (hall i (length_eq n 0 ▸ hi))
    have hdrop : x.LeadsTo InShutdown Ending := by
      apply Execution.LeadsTo.of_drop (k := k) fun m hm => hm.next (hsupervised m)
      exact leadsTo_ending (fun m => hsupervised (k + m)) (Execution.Recurs.drop hx.runs k)
        fun m => hk (k + m) (Nat.le_add_right k m)
    exact hdrop n hshutdown

/-- How far the loop of `ForceStopAndJoinSubReactors` is from its end. -/
def rescueRank (reactors : Nat) : RunPoint → Nat
  | .handleException next => reactors - next + 1
  | _ => 0

/-- The `catch` clause comes to its joins. -/
theorem leadsTo_join (hsupervised : ∀ n, (x.state n).Supervised) (hx : Cooperative x) :
    x.LeadsTo (fun s => s.caught = true) fun s =>
      s.point = .joinSubReactors ∨ s.point = .returned := by
  apply leadsTo_of_turns hx.runs (rescueRank (x.state 0).subReactors.length)
  · intro n hcaught hnot
    rw [x.next]
    exact (step_other (c := c) (s := x.state n) hnot).2.2.1.trans hcaught
  · intro n input hcaught hevent
    have hrescued := (hsupervised n).rescued hcaught
    rw [state_next_run hevent]
    cases hpoint : (x.state n).point with
    | handleException next =>
        have hlength := length_eq (x := x) n 0
        simp only [runStep, hpoint, handleException]
        cases hget : (x.state n).subReactors[next]? with
        | none => exact .inl (.inl rfl)
        | some r =>
            have hlt := (List.getElem?_eq_some_iff.mp hget).1
            refine .inr ⟨hcaught, .inl ?_⟩
            simp only [rescueRank]
            omega
    | joinSubReactors =>
        simp only [runStep, hpoint, joinSubReactors]
        split
        · exact .inl (.inr rfl)
        · exact .inl (.inl hpoint)
    | returned =>
        simp only [runStep, hpoint]
        exact .inl (.inr trivial)
    | _ =>
        rw [hpoint] at hrescued
        cases hrescued

/-- The threads that `JoinSubReactors` waits for end. -/
theorem joined_end (hsupervised : ∀ n, (x.state n).Supervised)
    (hstart : ∀ i, ¬ (x.state 0).Summoned i) (hx : Cooperative x) {n : Nat}
    (hjoin : (x.state n).point = .joinSubReactors) :
    ∃ k, ∀ m ≥ k, (x.state m).subReactors.all threadEnded = true := by
  apply all_end
  intro i hi
  have hi' := hi
  rw [length_eq 0 n] at hi
  have hget := List.getElem?_eq_getElem hi
  cases hcaught : (x.state n).caught with
  | true =>
      have hrescued := (hsupervised n).rescued hcaught
      rw [hjoin] at hrescued
      rcases hrescued with hsummoned | hcreated
      · exact summoned_ends hsupervised hstart hx hi' (hsummoned i hi)
      · refine ⟨n, fun m hm => endedAt_of_at ?_⟩
        have hthread : At i (fun r => r.state = .created) (x.state n) :=
          ⟨_, hget, hcreated _ (List.getElem_mem hi)⟩
        exact (created_later hsupervised hcaught hthread m hm).2.mono fun _ => .inl
  | false =>
      have hphase := (hsupervised n).phase hcaught
      have hstate : (x.state n).state = .stopped := by
        rw [hjoin] at hphase
        cases hs : (x.state n).state with
        | stopped => rfl
        | created | running | draining =>
            rw [hs] at hphase
            cases hphase
      have hall := (hsupervised n).orderly.2.allStopped hcaught hstate
      refine ⟨n, fun m hm => endedAt_of_at ?_⟩
      have hmem := List.getElem_mem hi
      have hpublished := ((hsupervised n).orderly.1 _ hmem).published
      have hstopped : At i (fun r => r.state = .stopped) (x.state n) :=
        ⟨_, hget, hpublished.symm.trans (hall _ hmem)⟩
      exact (at_stopped_later hsupervised hstopped m hm).mono fun _ => .inr

/-- `JoinSubReactors` ends, and `Run` returns. -/
theorem leadsTo_returned (hsupervised : ∀ n, (x.state n).Supervised)
    (hstart : ∀ i, ¬ (x.state 0).Summoned i) (hx : Cooperative x) :
    x.LeadsTo (fun s => s.point = .joinSubReactors) fun s => s.point = .returned := by
  intro n hjoin
  obtain ⟨k, hk⟩ := joined_end hsupervised hstart hx hjoin
  have hnext {y : Execution (machine c : Machine (TcpServer Q) _)} {m : Nat}
      (hm : (y.state m).point = .joinSubReactors) :
      (y.state (m + 1)).point = .joinSubReactors ∨ (y.state (m + 1)).point = .returned := by
    cases hevent : y.event m with
    | run input =>
        rw [state_next_run hevent]
        simp only [runStep, hm, joinSubReactors]
        split
        · exact .inr rfl
        · exact .inl hm
    | stop | subReactor =>
        rw [y.next]
        exact .inl ((step_other (c := c) (s := y.state m) (by simp [hevent])).1.trans hm)
  have hdrop : x.LeadsTo (fun s => s.point = .joinSubReactors) fun s => s.point = .returned := by
    apply Execution.LeadsTo.of_drop (k := k) fun m hm => hnext hm
    apply Execution.LeadsTo.of_step (Execution.Recurs.drop hx.runs k) fun m hm => hnext hm
    rintro m hm ⟨input, hevent, -⟩
    have hended : ((x.drop k).state m).subReactors.all threadEnded = true :=
      hk (k + m) (Nat.le_add_right k m)
    rw [state_next_run hevent]
    simp only [runStep, hm, joinSubReactors, hended, if_true]
  exact hdrop n hjoin

end Executions

/-- `Run` returns once the server has been asked to stop, drains, or has caught an exception;
the threads of all sub reactors have ended then, or have never been created. -/
theorem leadsTo_end (c : ServerSetup) (store : Store Q) (x : Execution (machine c))
    (hstart : x.state 0 = created c store) (hx : Cooperative x) :
    x.LeadsTo (fun s => s.stopRequested = true ∨ s.state = .draining ∨ s.caught = true) fun s =>
      s.point = .returned ∧ s.subReactors.all threadEnded = true := by
  have hsupervised : ∀ n, (x.state n).Supervised :=
    x.invariant (fun s e h => h.step c e) (hstart ▸ supervised_created c store)
  have hnobody : ∀ i, ¬ (x.state 0).Summoned i := by
    rw [hstart]
    rintro i (hmem | hmem)
    · cases hmem
    · cases hmem
  have hreturned : x.LeadsTo (fun s => s.point = .joinSubReactors ∨ s.point = .returned) fun s =>
      s.point = .returned ∧ s.subReactors.all threadEnded = true := by
    rintro n (hjoin | hpoint)
    · obtain ⟨m, hm, hpoint⟩ := leadsTo_returned hsupervised hnobody hx n hjoin
      exact ⟨m, hm, hpoint, (hsupervised m).joined hpoint⟩
    · exact ⟨n, le_rfl, hpoint, (hsupervised n).joined hpoint⟩
  have hending : x.LeadsTo Ending fun s =>
      s.point = .returned ∧ s.subReactors.all threadEnded = true := by
    rintro n (hcaught | hjoin)
    · exact ((leadsTo_join hsupervised hx).trans hreturned) n hcaught
    · exact hreturned n (.inl hjoin)
  have hshutdown := (shutdown_ends hsupervised hnobody hx).trans hending
  have hpending : x.LeadsTo StopPending fun s =>
      s.point = .returned ∧ s.subReactors.all threadEnded = true := by
    apply (leadsTo_draining hsupervised hx.runs).trans
    rintro n (hcaught | hdraining)
    · exact hending n (.inl hcaught)
    · exact hshutdown n hdraining
  intro n hn
  cases hcaught : (x.state n).caught with
  | true => exact hending n (.inl hcaught)
  | false =>
      rcases hn with hstop | hdraining | hcaught'
      · cases hstate : (x.state n).state with
        | created => exact hpending n ⟨hcaught, hstop, .inl hstate⟩
        | running => exact hpending n ⟨hcaught, hstop, .inr hstate⟩
        | draining => exact hshutdown n ⟨hcaught, hstate⟩
        | stopped =>
            have hphase := (hsupervised n).phase hcaught
            rw [hstate] at hphase
            cases hpoint : (x.state n).point with
            | joinSubReactors => exact hreturned n (.inl hpoint)
            | returned => exact hreturned n (.inr hpoint)
            | _ =>
                rw [hpoint] at hphase
                cases hphase
      · exact hshutdown n ⟨hcaught, hdraining⟩
      · rw [hcaught] at hcaught'
        cases hcaught'

end TcpServer

end TinyKv
