import TinyKv.Net.ControlRequests
import TinyKv.Net.Descriptors
import TinyKv.Net.ShutdownCoordination

/-!
# Clients for a stopped reactor

`EnqueClient` looks at the two request flags, not at the state of the event loop. The
paths on which a reactor stops on request begin with a flag; the `catch` clauses of the
event loop publish `Stopped` without one, and admission stays open until the main loop
notices the failure.
-/

namespace TinyKv

open Foundation

variable {Q : ExpirationQueue}

namespace SubReactor

/-- A stop of either kind has been requested. -/
def asked (r : SubReactor Q) : Bool := r.stopRequested || r.forceStopRequested

/-- The return value of `EnqueClient`. -/
def accepts (r : SubReactor Q) (fd : Int) : Bool :=
  if fd < 0 then
    false
  else if r.stopRequested || r.forceStopRequested then
    false
  else
    true

/-- A reactor that has published `Stopped` rejects every client and closes its descriptor;
if its event loop has not failed, no client is left in its queue. -/
def TakesNoClients (r : SubReactor Q) : Prop :=
  r.publishedState = .stopped →
    (∀ fd, r.accepts fd = false ∧ r.enqueClient fd = r ∧
      (0 ≤ fd → r.closedByEnqueClient fd = [fd])) ∧
    (r.failed = false → r.pendingClients = [])

theorem rejects_of_asked {r : SubReactor Q} (h : r.asked = true) (fd : Int) :
    r.accepts fd = false ∧ r.enqueClient fd = r ∧
      (0 ≤ fd → r.closedByEnqueClient fd = [fd]) := by
  rw [asked] at h
  simp only [accepts, enqueClient, closedByEnqueClient, h, if_true]
  refine ⟨by split <;> rfl, by split <;> rfl, fun hvalid => ?_⟩
  exact if_neg (Int.not_lt.mpr hvalid)

theorem accepts_of_not_asked {r : SubReactor Q} (h : r.asked = false) : r.accepts 0 = true := by
  rw [asked] at h
  simp [accepts, h]

/-- The queue of a draining reactor has been taken. -/
def Emptied (r : SubReactor Q) : Prop := r.state = .draining → r.pendingClients = []

/-- An event loop that fails does so after a stop has been requested. -/
def FailsOnlyAsked (o : NetworkOptions) (r : SubReactor Q) : Action Q → Prop
  | .iterate input => r.asked = true ∨ r.state = .created ∨ r.state = .stopped ∨
      (r.iteration o input).1 = true
  | _ => True

/-! ### The flags and the queue in an iteration -/

/-- The event loop does not write the flags. -/
theorem asked_iterate (o : NetworkOptions) (input : LoopInput Q) (r : SubReactor Q) :
    (r.iterate o input).asked = r.asked := by
  by_cases hlive : r.state = .created ∨ r.state = .stopped
  · rw [iterate_of_idle hlive]
  · have hcontrol := congrArg (fun control => control.2.1 || control.2.2)
      (control_iterate hlive o input)
    refine hcontrol.trans ?_
    split
    · rfl
    · rfl

/-- An iteration never fills the queue. -/
theorem pendingClients_iterate {r : SubReactor Q} (h : r.pendingClients = [])
    (o : NetworkOptions) (input : LoopInput Q) : (r.iterate o input).pendingClients = [] := by
  by_cases hlive : r.state = .created ∨ r.state = .stopped
  · rw [iterate_of_idle hlive, h]
  · have hcontrol := congrArg Prod.fst (control_iterate hlive o input)
    refine hcontrol.trans ?_
    split
    · rfl
    · exact h

theorem pendingClients_of_takesControl {r : SubReactor Q} {o : NetworkOptions}
    {input : LoopInput Q} (hlive : ¬ (r.state = .created ∨ r.state = .stopped))
    (h : r.takesControl input = true) : (r.iterate o input).pendingClients = [] := by
  have hcontrol := congrArg Prod.fst (control_iterate hlive o input)
  rw [if_pos h] at hcontrol
  exact hcontrol

/-- The control requests change the state only when a stop has been requested. -/
theorem processControlRequests_state {r : SubReactor Q} (h : r.asked = false)
    (o : NetworkOptions) (input : LoopInput Q) :
    (processControlRequests o input r).2.state = r.state := by
  obtain ⟨hstop, hforce⟩ := Bool.or_eq_false_iff.mp h
  unfold processControlRequests
  simp only [hstop, hforce, Bool.false_eq_true, if_false]
  exact addClients_state ..

/-- After the control requests the state is as before, or they have been taken with a
request to stop among them. -/
theorem state_afterControl {o : NetworkOptions} {input : LoopInput Q} {ready : List ReadyEvent}
    {r mid : SubReactor Q} (hready : input.ready = some ready)
    (hmid : AfterControl o input ready r mid) :
    mid.state = r.state ∨ r.takesControl input = true ∧ r.asked = true := by
  obtain ⟨-, rfl⟩ | ⟨hcontrol, hdrain, hprocess⟩ := hmid
  · exact .inl rfl
  · cases hasked : r.asked with
    | true => exact .inr ⟨by simp [takesControl, hready, hcontrol, hdrain], rfl⟩
    | false =>
        have hstate := processControlRequests_state hasked o input
        rw [hprocess] at hstate
        exact .inl hstate

/-- An iteration without an exception leaves `Running` on request only, and takes the queue
then. -/
theorem leaves_on_request {r : SubReactor Q} (htidy : r.Tidy) (hemptied : r.Emptied)
    (hlive : ¬ (r.state = .created ∨ r.state = .stopped)) {o : NetworkOptions}
    {input : LoopInput Q} (hok : (r.iteration o input).1 = true)
    (hleft : (r.iterate o input).state ≠ .running) :
    r.asked = true ∧ (r.iterate o input).pendingClients = [] := by
  by_cases hdraining : r.state = .draining
  · refine ⟨?_, pendingClients_iterate (hemptied hdraining) o input⟩
    rw [asked, htidy.draining hdraining, Bool.true_or]
  have hrunning : r.state = .running := by
    cases hstate : r.state <;> simp_all
  have hasked : r.takesControl input = true ∧ r.asked = true := by
    have houtcome := iteration_outcome o input r
    rw [iterate, if_neg hlive] at hleft
    generalize r.iteration o input = result at houtcome hok hleft
    cases houtcome with
    | waitFailed hready => cases hok
    | drainFailed hready hcontrol hdrain => cases hok
    | controlFailed hready hcontrol hdrain hprocess => cases hok
    | eventFailed hready hmid hstate hhandled => cases hok
    | stopped hready hmid hstate =>
        obtain hsame | hasked := state_afterControl hready hmid
        · rw [hsame, hrunning] at hstate
          cases hstate
        · exact hasked
    | @handled ready mid handled hready hmid hstate hhandled =>
        obtain hsame | hasked := state_afterControl hready hmid
        · -- a running reactor that handles events stays running
          have hkept := handleReady_state o input.io input.modityOk ready mid
          rw [hhandled, hsame, hrunning] at hkept
          have hserving : (handled.cleanupClosedConnections input.removeOk).state = .running :=
            hkept
          rw [checkShutdownProgress, if_pos (by rw [hserving]; decide)] at hleft
          exact absurd hserving hleft
        · exact hasked
  exact ⟨hasked.2, pendingClients_of_takesControl hlive hasked.1⟩

/-- An exception publishes `Stopped`. -/
theorem iterate_of_exception {r : SubReactor Q} {o : NetworkOptions} {input : LoopInput Q}
    (hlive : ¬ (r.state = .created ∨ r.state = .stopped))
    (hexception : (r.iteration o input).1 = false) :
    (r.iterate o input).state = .stopped ∧ (r.iterate o input).publishedState = .stopped ∧
      (r.iterate o input).failed = true := by
  rw [iterate, if_neg hlive]
  generalize r.iteration o input = result at hexception
  obtain ⟨ok, after⟩ := result
  cases hexception
  exact ⟨rfl, rfl, rfl⟩

/-! ### The invariant and the property -/

/-- A client is enqueued only while nobody has asked the reactor to stop. -/
theorem pendingClients_enqueClient {r : SubReactor Q} (h : r.asked = true) (fd : Int) :
    r.enqueClient fd = r := (rejects_of_asked h fd).2.1

theorem Emptied.step {r : SubReactor Q} (h : r.Emptied) (htidy : r.Tidy) (o : NetworkOptions)
    (action : Action Q) : (r.step o action).Emptied := by
  cases action with
  | start addOk threadOk =>
      have houtcome := r.start_outcome addOk threadOk
      change (r.start addOk threadOk).Emptied
      generalize r.start addOk threadOk = after at houtcome ⊢
      cases houtcome with
      | refused hcreated => exact h
      | unregistered hcreated poller => exact h
      | running hcreated poller => nofun
      | threadless hcreated poller => nofun
  | enqueClient fd =>
      intro hdraining
      change (r.enqueClient fd).state = .draining at hdraining
      obtain ⟨fds, heq⟩ := r.enqueClient_eq fd
      rw [heq] at hdraining
      have hasked : r.asked = true := by
        rw [asked, htidy.draining hdraining, Bool.true_or]
      change (r.enqueClient fd).pendingClients = []
      rw [pendingClients_enqueClient hasked]
      exact h hdraining
  | stop deadline => exact h
  | forceStop => exact h
  | iterate input =>
      intro hdraining
      change (r.iterate o input).state = .draining at hdraining
      change (r.iterate o input).pendingClients = []
      by_cases hlive : r.state = .created ∨ r.state = .stopped
      · rw [iterate_of_idle hlive] at hdraining ⊢
        exact h hdraining
      cases hok : (r.iteration o input).1 with
      | true => exact (leaves_on_request htidy h hlive hok (by rw [hdraining]; decide)).2
      | false =>
          rw [(iterate_of_exception hlive hok).1] at hdraining
          cases hdraining

/-- A stopped reactor that has been asked to stop takes no clients. -/
theorem takesNoClients_of_asked {r : SubReactor Q} (hasked : r.asked = true)
    (hempty : r.failed = false → r.pendingClients = []) : r.TakesNoClients :=
  fun _ => ⟨rejects_of_asked hasked, hempty⟩

theorem TakesNoClients.asked {r : SubReactor Q} (h : r.TakesNoClients)
    (hstopped : r.publishedState = .stopped) : r.asked = true := by
  by_contra hasked
  have haccepts := accepts_of_not_asked (Bool.eq_false_iff.mpr hasked)
  rw [((h hstopped).1 0).1] at haccepts
  cases haccepts

/-- An iteration that does not fail unasked keeps the property. -/
theorem TakesNoClients.iterate {r : SubReactor Q} (h : r.TakesNoClients) (htidy : r.Tidy)
    (hemptied : r.Emptied) {o : NetworkOptions} {input : LoopInput Q}
    (hcondition : r.FailsOnlyAsked o (.iterate input)) : (r.iterate o input).TakesNoClients := by
  by_cases hlive : r.state = .created ∨ r.state = .stopped
  · rw [iterate_of_idle hlive]
    exact h
  have hstates := (htidy.iterate o input).published
  cases hok : (r.iteration o input).1 with
  | true =>
      intro hstopped
      rw [hstates] at hstopped
      obtain ⟨hasked, hempty⟩ :=
        leaves_on_request htidy hemptied hlive hok (by rw [hstopped]; decide)
      rw [← asked_iterate o input] at hasked
      exact takesNoClients_of_asked hasked (fun _ => hempty) (hstates.trans hstopped)
  | false =>
      obtain ⟨-, -, hfailed⟩ := iterate_of_exception hlive hok
      have hasked : r.asked = true := by
        obtain hasked | hidle := hcondition
        · exact hasked
        · rw [hok] at hidle
          simp_all
      rw [← asked_iterate o input] at hasked
      apply takesNoClients_of_asked hasked
      intro hnot
      rw [hfailed] at hnot
      cases hnot

/-- A step that does not fail unasked keeps the property. -/
theorem TakesNoClients.step {r : SubReactor Q} (h : r.TakesNoClients) (htidy : r.Tidy)
    (hemptied : r.Emptied) {o : NetworkOptions} {action : Action Q}
    (hcondition : r.FailsOnlyAsked o action) : (r.step o action).TakesNoClients := by
  cases action with
  | start addOk threadOk =>
      have houtcome := r.start_outcome addOk threadOk
      change (r.start addOk threadOk).TakesNoClients
      generalize r.start addOk threadOk = after at houtcome ⊢
      cases houtcome with
      | refused hcreated => exact h
      | unregistered hcreated poller =>
          exact fun hstopped => absurd (hcreated.symm.trans hstopped) nofun
      | running hcreated poller => nofun
      | threadless hcreated poller => nofun
  | enqueClient fd =>
      intro hstopped
      obtain ⟨fds, heq⟩ := r.enqueClient_eq fd
      have hbefore : r.publishedState = .stopped := by
        change (r.enqueClient fd).publishedState = .stopped at hstopped
        rwa [heq] at hstopped
      have hsame : r.step o (.enqueClient fd) = r :=
        pendingClients_enqueClient (h.asked hbefore) fd
      rw [hsame]
      exact h hbefore
  | stop deadline =>
      intro hstopped
      exact takesNoClients_of_asked (Bool.true_or _) (h hstopped).2 hstopped
  | forceStop =>
      intro hstopped
      exact takesNoClients_of_asked (Bool.or_true _) (h hstopped).2 hstopped
  | iterate input => exact h.iterate htidy hemptied hcondition

/-- An event loop that fails unasked takes clients in its end state. -/
theorem takes_clients_of_failure {r : SubReactor Q} {o : NetworkOptions} {action : Action Q}
    (hfails : ¬ r.FailsOnlyAsked o action) : ¬ (r.step o action).TakesNoClients := by
  intro h
  cases action with
  | iterate input =>
      simp only [FailsOnlyAsked, not_or, Bool.not_eq_true] at hfails
      obtain ⟨hasked, hcreated, hstopped, hexception⟩ := hfails
      have hlive : ¬ (r.state = .created ∨ r.state = .stopped) := not_or.mpr ⟨hcreated, hstopped⟩
      have hafter := h.asked (iterate_of_exception hlive hexception).2.1
      change (r.iterate o input).asked = true at hafter
      rw [asked_iterate, hasked] at hafter
      cases hafter
  | _ => exact hfails trivial

/-- Along a run, a stopped reactor takes no clients exactly when its event loop does not
fail unasked. -/
theorem meets_iff_takesNoClients (o : NetworkOptions) (backend : PollerBackend)
    (controlFd : Int) (store : Store Q) (actions : List (Action Q)) :
    (machine o).Meets (FailsOnlyAsked o) (created backend controlFd store) actions ↔
      ∀ before, before <+: actions →
        ((created backend controlFd store).run o before).TakesNoClients := by
  apply (machine o).meets_iff_all_along (I := fun r => r.Tidy ∧ r.Emptied)
  · rintro r action ⟨htidy, hemptied⟩
    exact ⟨htidy.step o action, hemptied.step htidy o action⟩
  · rintro r action ⟨htidy, hemptied⟩ h hcondition
    exact h.step htidy hemptied hcondition
  · rintro r action - hfails
    exact takes_clients_of_failure hfails
  · exact ⟨tidy_created backend controlFd store, nofun⟩
  · nofun

end SubReactor

namespace TcpServer

/-! ### The main loop -/

/-- A sub reactor that has been asked to stop has been so by the main reactor. -/
def AskedByMain (s : TcpServer Q) : Prop :=
  ∀ r ∈ s.subReactors, r.asked = true → ∃ call ∈ s.calls, call.ofClient = false

/-- What a step of the main reactor can do to the requests: nothing, or one call of `Stop`
or `ForceStop`. -/
def Asks (s after : TcpServer Q) : Prop :=
  (∃ call ∈ after.calls, call.ofClient = false) ∨
    (∀ call ∈ s.calls, call ∈ after.calls) ∧
      ∀ r' ∈ after.subReactors, r'.asked = true → ∃ r ∈ s.subReactors, r.asked = true

theorem Asks.askedByMain {s after : TcpServer Q} (hasks : Asks s after) (h : s.AskedByMain) :
    after.AskedByMain := by
  intro r' hmem hasked
  obtain hcall | ⟨hcalls, hreactors⟩ := hasks
  · exact hcall
  · obtain ⟨r, hr, hbefore⟩ := hreactors r' hmem hasked
    obtain ⟨call, hcall, hstop⟩ := h r hr hbefore
    exact ⟨call, hcalls call hcall, hstop⟩

theorem asks_of_same {s after : TcpServer Q} (hreactors : after.subReactors = s.subReactors)
    (hcalls : ∀ call ∈ s.calls, call ∈ after.calls) : Asks s after :=
  .inr ⟨hcalls, fun r' hmem hasked => ⟨r', hreactors ▸ hmem, hasked⟩⟩

/-- A sub reactor is replaced by one with the same requests. -/
theorem asks_of_set {s after : TcpServer Q} {i : Nat} {r r' : SubReactor Q}
    (hget : s.subReactors[i]? = some r) (hasked : r'.asked = r.asked)
    (hreactors : after.subReactors = s.subReactors.set i r')
    (hcalls : ∀ call ∈ s.calls, call ∈ after.calls) : Asks s after := by
  refine .inr ⟨hcalls, fun other hmem hother => ?_⟩
  rw [hreactors] at hmem
  obtain hmem | rfl := List.mem_or_eq_of_mem_set hmem
  · exact ⟨other, hmem, hother⟩
  · exact ⟨r, List.mem_of_getElem? hget, hasked ▸ hother⟩

theorem asks_of_call {s after : TcpServer Q} (call : MainCall) (hstop : call.ofClient = false)
    (hcalls : after.calls = s.calls ++ [call]) : Asks s after :=
  .inl ⟨call, by simp [hcalls], hstop⟩

theorem asked_start (r : SubReactor Q) (addOk threadOk : Bool) :
    (r.start addOk threadOk).asked = r.asked := by
  have houtcome := r.start_outcome addOk threadOk
  generalize r.start addOk threadOk = after at houtcome ⊢
  cases houtcome with
  | refused hcreated => rfl
  | unregistered hcreated poller => rfl
  | running hcreated poller => rfl
  | threadless hcreated poller => rfl

theorem asked_enqueClient (r : SubReactor Q) (fd : Int) : (r.enqueClient fd).asked = r.asked := by
  obtain ⟨fds, heq⟩ := r.enqueClient_eq fd
  rw [heq]
  rfl

/-- The main reactor asks a sub reactor to stop only by a call of its own. -/
theorem asks_runStep (c : ServerSetup) (input : RunInput) (s : TcpServer Q) :
    Asks s (s.runStep c input) := by
  have houtcome := runStep_outcome c input s
  generalize s.runStep c input = after at houtcome ⊢
  cases houtcome with
  | started h hget _ | startFailed h hget _ =>
      exact asks_of_set hget (asked_start _ _ _) rfl fun _ => id
  | @stopped next => exact asks_of_call (.stop next) rfl rfl
  | @forced next => exact asks_of_call (.forceStop next) rfl rfl
  | @rescued next => exact asks_of_call (.forceStop next) rfl rfl
  | dealt fd _ _ _ hget =>
      exact asks_of_set hget (asked_enqueClient _ fd) rfl fun _ hmem =>
        List.mem_append_left _ (List.mem_append_left _ hmem)
  | unready | undealt | round => exact asks_of_same rfl fun _ hmem => List.mem_append_left _ hmem
  | goes | throws | opened | refused | served | sweeperFailed | drained | removeFailed | finished
  | forcedAll | joined => exact asks_of_same rfl fun _ => id

theorem AskedByMain.step {s : TcpServer Q} (h : s.AskedByMain) (c : ServerSetup)
    (action : Action Q) : (s.step c action).AskedByMain := by
  cases action with
  | run input => exact (asks_runStep c input s).askedByMain h
  | stop => exact h
  | subReactor i input =>
      simp only [TcpServer.step]
      cases hget : s.subReactors[i]? with
      | none => exact h
      | some r =>
          have hsame := SubReactor.asked_iterate c.networkOptions input r
          have hasks : Asks s (s.withSubReactor i (r.iterate c.networkOptions input)) :=
            asks_of_set hget hsame rfl fun _ => id
          exact hasks.askedByMain h

/-- While the main loop is running, nobody has asked a sub reactor to stop. -/
theorem not_asked_of_running {s : TcpServer Q} (h : s.AskedByMain) (horderly : s.Orderly)
    (hrunning : s.state = .running) (hcaught : s.caught = false) :
    ∀ r ∈ s.subReactors, r.asked = false := by
  intro r hmem
  by_contra hasked
  obtain ⟨call, hcall, hstop⟩ := h r hmem (Bool.not_eq_false _ ▸ hasked)
  cases horderly.2 with
  | running hstate hpoint hsent hcalls =>
      rw [hcalls call hcall] at hstop
      cases hstop
  | caught hcaught' hpoint =>
      rw [hcaught] at hcaught'
      cases hcaught'
  | starting hstate _ _ _ => exact absurd (hstate.symm.trans hrunning) nofun
  | stopping hstate _ _ _ _ => exact absurd (hstate.symm.trans hrunning) nofun
  | draining hstate _ _ _ => exact absurd (hstate.symm.trans hrunning) nofun
  | forcing hstate _ _ _ _ => exact absurd (hstate.symm.trans hrunning) nofun
  | stopped hstate _ _ _ _ => exact absurd (hstate.symm.trans hrunning) nofun

/-- The event loops of the sub reactors do not fail unasked. -/
def SubReactorsFailOnlyAsked (c : ServerSetup) (s : TcpServer Q) : Action Q → Prop
  | .subReactor i input => ∀ r, s.subReactors[i]? = some r →
      r.FailsOnlyAsked c.networkOptions (.iterate input)
  | _ => True

/-- The sub reactors keep their invariants, and take no clients once they are stopped. -/
def Closed (r : SubReactor Q) : Prop := r.Tidy ∧ r.Emptied ∧ r.TakesNoClients

theorem closed_step {s : TcpServer Q} (h : ∀ r ∈ s.subReactors, Closed r) (c : ServerSetup)
    {action : Action Q} (hcondition : s.SubReactorsFailOnlyAsked c action) :
    ∀ r ∈ (s.step c action).subReactors, Closed r := by
  have hset {i : Nat} {r : SubReactor Q} (hget : s.subReactors[i]? = some r)
      {step : SubReactor.Action Q} (hstep : r.FailsOnlyAsked c.networkOptions step) :
      ∀ r' ∈ s.subReactors.set i (r.step c.networkOptions step), Closed r' := by
    intro r' hmem
    obtain hmem | rfl := List.mem_or_eq_of_mem_set hmem
    · exact h r' hmem
    · obtain ⟨htidy, hemptied, hcloses⟩ := h r (List.mem_of_getElem? hget)
      exact ⟨htidy.step c.networkOptions step, hemptied.step htidy c.networkOptions step,
        hcloses.step htidy hemptied hstep⟩
  cases action with
  | run input =>
      have hcalled := called_runStep c input s
      simp only [TcpServer.step]
      generalize (s.runStep c input).subReactors = after at hcalled ⊢
      cases hcalled with
      | none => exact h
      | @call i r step hget hcall =>
          apply hset hget
          cases step with
          | iterate input => exact absurd rfl (hcall input)
          | _ => trivial
  | stop => exact h
  | subReactor i input =>
      simp only [TcpServer.step]
      cases hget : s.subReactors[i]? with
      | none => exact h
      | some r => exact hset hget (hcondition r hget)

/-- In every run of a reactor, a stopped reactor takes no clients in all states exactly when
its event loop never ends in its `catch` clauses before it has been asked to stop; and in
a server whose sub reactors meet this, no sub reactor is stopped while the main loop is
running, so that no accepted client is in the queue of a stopped one. -/
theorem stopped_takes_no_clients (c : ServerSetup) (store : Store Q) (controlFd : Int)
    (steps : List (SubReactor.Action Q)) (actions : List (Action Q)) :
    ((∀ before, before <+: steps →
        ((SubReactor.created c.backend controlFd store).run c.networkOptions
          before).TakesNoClients) ↔
      (SubReactor.machine c.networkOptions).Meets (SubReactor.FailsOnlyAsked c.networkOptions)
        (SubReactor.created c.backend controlFd store) steps) ∧
    ((machine c).Meets (SubReactorsFailOnlyAsked c) (created c store) actions →
      let s := (created c store).run c actions
      s.state = .running → s.caught = false →
        ∀ r ∈ s.subReactors, r.publishedState ≠ .stopped) := by
  refine ⟨(SubReactor.meets_iff_takesNoClients c.networkOptions c.backend controlFd store
    steps).symm, ?_⟩
  intro hmeets s hrunning hcaught r hmem hstopped
  have hclosed : ∀ r ∈ s.subReactors, Closed r := by
    apply (machine c).run_invariant_of_meets (I := fun s => ∀ r ∈ s.subReactors, Closed r) _ _
      hmeets
    · intro s action h hcondition
      exact closed_step h c hcondition
    · intro r hmem
      obtain ⟨i, -, rfl⟩ := List.mem_map.mp hmem
      exact ⟨SubReactor.tidy_created c.backend (c.controlFd i) store, nofun, nofun⟩
  have hasked : s.AskedByMain := by
    apply (machine c).run_invariant (I := AskedByMain)
    · intro s h action _
      exact h.step c action
    · intro r hmem hasked
      obtain ⟨i, -, rfl⟩ := List.mem_map.mp hmem
      cases hasked
  have hnot := not_asked_of_running hasked (orderly_run c store actions) hrunning hcaught r hmem
  rw [(hclosed r hmem).2.2.asked hstopped] at hnot
  cases hnot

/-- The wait of a running reactor fails. -/
def failedWait : LoopInput sortedExpirations :=
  { SubReactor.calmly [] .wouldBlock .wouldBlock 0 with ready := none }

/-- The sub reactor of a running server has failed and published `Stopped`; the main reactor,
which has passed its check before, accepts a client, which stays in the queue. -/
theorem failed_reactor_takes_client :
    let s := (created oneSubReactor Store.empty).run oneSubReactor
      (List.replicate 3 (smoothly [] .wouldBlock 0) ++
        List.replicate 4 (smoothly [⟨4, { read := true }⟩] .wouldBlock 0) ++
        [.subReactor 0 failedWait, smoothly [] (.client 7 true) 0])
    s.state = .running ∧ s.caught = false ∧
      s.subReactors.map (fun r => (r.publishedState, r.pendingClients)) = [(.stopped, [7])] ∧
      s.subReactors.map (fun r => (r.accepts 8, r.closedByEnqueClient 8)) = [(true, [])] ∧
      ¬ ∀ r ∈ s.subReactors, r.TakesNoClients := by
  refine ⟨rfl, rfl, rfl, rfl, fun h => ?_⟩
  have hasked := (h _ (List.mem_singleton.mpr rfl)).asked rfl
  cases hasked

end TcpServer

end TinyKv
