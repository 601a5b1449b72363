import TinyKv.Net.SubReactorClients

/-!
# Invariants of a reactor

A property of a reactor that every single operation of its event loop keeps is kept by
every run. The operations are those on one connection, the cleanup, the registration of
one client, and the writes of the control members; an operation that throws has to leave
the property to the `catch` clause.
-/

namespace TinyKv

open Foundation

variable {Q : ExpirationQueue}

namespace SubReactor

/-- `I` holds after an operation, or `J` when the operation has thrown. -/
def Settled (I J : SubReactor Q → Prop) (result : Bool × SubReactor Q) : Prop :=
  if result.1 then I result.2 else J result.2

/-- The operations of the event loop keep `I`, and reach `J` where they throw, when the
answers of the system calls for the ready events satisfy `C`. -/
structure Operations (o : NetworkOptions) (C : IoInput Q → Prop) (I J : SubReactor Q → Prop) :
    Prop where
  event : ∀ (r : SubReactor Q) (fd : Int) (conn : Connection) (events : IoEvent)
    (input : IoInput Q) (modityOk : Bool), I r → r.clients.lookup fd = some conn → C input →
      Settled I J
        ({ r with store := (conn.handleEvent o r.state events input r.store).2 }.registerInterest
          fd (conn.handleEvent o r.state events input r.store).1 modityOk)
  drain : ∀ (r : SubReactor Q) (fd : Int) (conn : Connection) (modityOk : Bool), I r →
    r.clients.lookup fd = some conn →
      Settled I J (r.registerInterest fd (conn.beginDrain o) modityOk)
  cleanup : ∀ (r : SubReactor Q) (removeOk : Int → Bool), I r →
    I (r.cleanupClosedConnections removeOk)
  close : ∀ (r : SubReactor Q) (reason : ForcedClose), I r →
    I { r with
      calls := r.calls ++ [.addForcedShutdownConnections (KeyedMap.size r.clients)]
      clients := KeyedMap.mapValues (·.markClosed reason.cause) r.clients }
  add : ∀ (r : SubReactor Q) (fd : Int) (addOk : Bool), I r → I (r.addClientInLoop fd addOk)
  throws : ∀ r : SubReactor Q, I r → J r
  control : ∀ (r : SubReactor Q) (state published : ServerState) (pending : List Int)
    (stop force : Bool) (requested deadline : TimePoint) (readings : List TimePoint), I r →
      I { r with
        state
        publishedState := published
        pendingClients := pending
        stopRequested := stop
        forceStopRequested := force
        requestedShutdownDeadline := requested
        shutdownDeadline := deadline
        readings }

namespace Operations

variable {o : NetworkOptions} {C : IoInput Q → Prop} {I J : SubReactor Q → Prop}
  (h : Operations o C I J)
include h

theorem publishState {r : SubReactor Q} (hr : I r) (state : ServerState) :
    I (r.publishState state) :=
  h.control r state state r.pendingClients r.stopRequested r.forceStopRequested
    r.requestedShutdownDeadline r.shutdownDeadline r.readings hr

theorem forceClose {r : SubReactor Q} (hr : I r) (reason : ForcedClose) (removeOk : Int → Bool) :
    I (r.forceCloseAllConnections reason removeOk) :=
  h.cleanup _ removeOk (h.close r reason hr)

/-- The loop over the ready events; by induction on them. -/
theorem handleReady {io : Nat → IoInput Q} (hio : ∀ i, C (io i)) (modityOk : Nat → Bool)
    (ready : List ReadyEvent) {r : SubReactor Q} (hr : I r) :
    Settled I J (handleReady o io modityOk ready r) := by
  induction ready generalizing io modityOk r with
  | nil => exact hr
  | cons event rest ih =>
      unfold SubReactor.handleReady
      split
      · exact ih (fun i => hio (i + 1)) _ hr
      cases hlook : r.clients.lookup event.fd with
      | none => exact ih (fun i => hio (i + 1)) _ hr
      | some conn =>
          have hevent := h.event r event.fd conn event.events (io 0) (modityOk 0) hr hlook (hio 0)
          simp only
          generalize SubReactor.registerInterest _ event.fd _ (modityOk 0) = result at hevent ⊢
          obtain ⟨ok, after⟩ := result
          cases ok with
          | false => exact hevent
          | true => exact ih (fun i => hio (i + 1)) _ hevent

/-- The loop of `BeginGracefulShutdown`; by induction on the descriptors. -/
theorem drainClients (modityOk : Int → Bool) (fds : List Int) {r : SubReactor Q} (hr : I r) :
    Settled I J (drainClients o modityOk fds r) := by
  induction fds generalizing r with
  | nil => exact hr
  | cons fd rest ih =>
      unfold SubReactor.drainClients
      cases hlook : r.clients.lookup fd with
      | none => exact ih hr
      | some conn =>
          have hdrain := h.drain r fd conn (modityOk fd) hr hlook
          simp only
          generalize r.registerInterest fd (conn.beginDrain o) (modityOk fd) = result at hdrain ⊢
          obtain ⟨ok, after⟩ := result
          cases ok with
          | false => exact hdrain
          | true => exact ih hdrain

theorem beginGracefulShutdown (input : LoopInput Q) (deadline : TimePoint) {r : SubReactor Q}
    (hr : I r) : Settled I J (beginGracefulShutdown o input deadline r) := by
  have hdraining : I (r.drainUntil deadline) :=
    h.control r .draining .draining r.pendingClients r.stopRequested r.forceStopRequested
      r.requestedShutdownDeadline deadline r.readings hr
  have hsettled : Settled I J (drainAll o input deadline r) :=
    h.drainClients input.drainModityOk r.clients.keys hdraining
  have houtcome := beginGracefulShutdown_outcome o input deadline r
  generalize SubReactor.beginGracefulShutdown o input deadline r = result at houtcome ⊢
  cases houtcome with
  | repeated hstate => exact hr
  | failed hstate hdrained =>
      rw [hdrained] at hsettled
      exact hsettled
  | finished hstate hdrained hempty =>
      rw [hdrained] at hsettled
      exact h.publishState (h.cleanup _ input.removeOk hsettled) .stopped
  | begun hstate hdrained hclients =>
      rw [hdrained] at hsettled
      exact h.cleanup _ input.removeOk hsettled

theorem addClients (fds : List Int) (addOk : Nat → Bool) {r : SubReactor Q} (hr : I r) :
    I (addClients addOk fds r) := by
  induction fds generalizing addOk r with
  | nil => exact hr
  | cons fd rest ih => exact ih _ (h.add r fd (addOk 0) hr)

theorem processControlRequests (input : LoopInput Q) {r : SubReactor Q} (hr : I r) :
    Settled I J (processControlRequests o input r) := by
  have htaken : I { r with pendingClients := [] } :=
    h.control r r.state r.publishedState [] r.stopRequested r.forceStopRequested
      r.requestedShutdownDeadline r.shutdownDeadline r.readings hr
  unfold SubReactor.processControlRequests
  simp only
  split
  · exact h.publishState (h.forceClose htaken .forceStop input.removeOk) .stopped
  split
  · exact h.beginGracefulShutdown input _ htaken
  · exact h.addClients r.pendingClients input.addOk htaken

theorem checkShutdownProgress (input : LoopInput Q) {r : SubReactor Q} (hr : I r) :
    I (r.checkShutdownProgress input) := by
  have hread : I { r with readings := r.readings ++ [input.now] } :=
    h.control r r.state r.publishedState r.pendingClients r.stopRequested r.forceStopRequested
      r.requestedShutdownDeadline r.shutdownDeadline (r.readings ++ [input.now]) hr
  have houtcome := r.checkShutdownProgress_outcome input
  generalize r.checkShutdownProgress input = after at houtcome ⊢
  cases houtcome with
  | serving hstate => exact hr
  | drained hstate hempty => exact h.publishState hr .stopped
  | late hstate hclients hlate =>
      exact h.publishState (h.forceClose hread .deadline input.removeOk) .stopped
  | waiting hstate hclients hearly => exact hread

theorem afterControl {input : LoopInput Q} {ready : List ReadyEvent} {r mid : SubReactor Q}
    (hr : I r) (hmid : AfterControl o input ready r mid) : I mid := by
  obtain ⟨-, rfl⟩ | ⟨-, -, hprocess⟩ := hmid
  · exact hr
  · have hsettled := h.processControlRequests input hr
    rw [hprocess] at hsettled
    exact hsettled

theorem iteration {input : LoopInput Q} (hio : ∀ i, C (input.io i)) {r : SubReactor Q}
    (hr : I r) : Settled I J (r.iteration o input) := by
  have houtcome := iteration_outcome o input r
  generalize r.iteration o input = result at houtcome ⊢
  cases houtcome with
  | waitFailed hready => exact h.throws r hr
  | drainFailed hready hcontrol hdrain => exact h.throws r hr
  | controlFailed hready hcontrol hdrain hprocess =>
      have hsettled := h.processControlRequests input hr
      rw [hprocess] at hsettled
      exact hsettled
  | stopped hready hmid hstate => exact h.afterControl hr hmid
  | @eventFailed ready mid handled hready hmid hstate hhandled =>
      have hsettled := h.handleReady hio input.modityOk ready (h.afterControl hr hmid)
      rw [hhandled] at hsettled
      exact hsettled
  | @handled ready mid handled hready hmid hstate hhandled =>
      have hsettled := h.handleReady hio input.modityOk ready (h.afterControl hr hmid)
      rw [hhandled] at hsettled
      exact h.checkShutdownProgress input (h.cleanup _ input.removeOk hsettled)

end Operations

/-- The property is kept by the event loop, its `catch` clauses included. -/
structure Invariant (o : NetworkOptions) (C : IoInput Q → Prop) (I : SubReactor Q → Prop) :
    Prop extends Operations o C I fun r => I r.fail where
  start : ∀ (r : SubReactor Q) (addOk threadOk : Bool), r.clients = ∅ → I r →
    I (r.start addOk threadOk)

theorem Invariant.iterate {o : NetworkOptions} {C : IoInput Q → Prop} {I : SubReactor Q → Prop}
    (h : Invariant o C I) {input : LoopInput Q} (hio : ∀ i, C (input.io i)) {r : SubReactor Q}
    (hr : I r) : I (r.iterate o input) := by
  unfold SubReactor.iterate
  split
  · exact hr
  have hsettled := h.iteration hio hr
  generalize r.iteration o input = result at hsettled ⊢
  obtain ⟨ok, after⟩ := result
  cases ok with
  | false => exact hsettled
  | true => exact hsettled

/-! ### The states a reactor passes -/

/-- The transitions of the published state once a reactor runs. -/
inductive Advances : ServerState → ServerState → Prop where
  | refl (state : ServerState) : Advances state state
  | drain : Advances .running .draining
  | finish : Advances .draining .stopped
  | halt : Advances .running .stopped

theorem Advances.trans {a b c : ServerState} (hab : Advances a b) (hbc : Advances b c) :
    Advances a c := by
  cases hab with
  | refl => exact hbc
  | drain =>
      cases hbc with
      | refl => exact .drain
      | finish => exact .halt
  | finish =>
      cases hbc with
      | refl => exact .finish
  | halt =>
      cases hbc with
      | refl => exact .halt

theorem advances_stopped {state : ServerState} (h : state ≠ .created) :
    Advances state .stopped := by
  cases state with
  | created => exact absurd rfl h
  | running => exact .halt
  | draining => exact .finish
  | stopped => exact .refl _

theorem Advances.ne_created {a b : ServerState} (hab : Advances a b) (h : a ≠ .created) :
    b ≠ .created := by
  cases hab with
  | refl => exact h
  | drain => nofun
  | finish => nofun
  | halt => nofun

theorem addClients_state (fds : List Int) (addOk : Nat → Bool) (r : SubReactor Q) :
    (addClients addOk fds r).state = r.state := by
  obtain ⟨poller, clients, calls, heq⟩ := addClients_eq fds addOk r
  rw [heq]

theorem handleReady_state (o : NetworkOptions) (io : Nat → IoInput Q) (modityOk : Nat → Bool)
    (ready : List ReadyEvent) (r : SubReactor Q) :
    (handleReady o io modityOk ready r).2.state = r.state := by
  obtain ⟨poller, clients, store, heq⟩ := handleReady_eq o io modityOk ready r
  rw [heq]

theorem drainAll_state (o : NetworkOptions) (input : LoopInput Q) (deadline : TimePoint)
    (r : SubReactor Q) : (drainAll o input deadline r).2.state = .draining := by
  obtain ⟨poller, clients, heq⟩ := drainAll_eq o input deadline r
  rw [heq]
  rfl

theorem advances_beginGracefulShutdown (o : NetworkOptions) (input : LoopInput Q)
    (deadline : TimePoint) (r : SubReactor Q) :
    Advances r.state (beginGracefulShutdown o input deadline r).2.state := by
  have hdraining := drainAll_state o input deadline r
  have houtcome := beginGracefulShutdown_outcome o input deadline r
  generalize beginGracefulShutdown o input deadline r = result at houtcome ⊢
  cases houtcome with
  | repeated hstate => exact .refl _
  | failed hstate hdrained =>
      rw [hdrained] at hdraining
      rw [hstate, hdraining]
      exact .drain
  | finished hstate hdrained hempty =>
      rw [hstate]
      exact .halt
  | @begun after hstate hdrained hclients =>
      rw [hdrained] at hdraining
      change Advances r.state after.state
      rw [hstate, hdraining]
      exact .drain

theorem advances_processControlRequests {r : SubReactor Q} (h : r.state ≠ .created)
    (o : NetworkOptions) (input : LoopInput Q) :
    Advances r.state (processControlRequests o input r).2.state := by
  unfold processControlRequests
  simp only
  split
  · exact advances_stopped h
  split
  · exact advances_beginGracefulShutdown o input _ { r with pendingClients := [] }
  · rw [addClients_state]
    exact .refl _

theorem advances_checkShutdownProgress (r : SubReactor Q) (input : LoopInput Q) :
    Advances r.state (r.checkShutdownProgress input).state := by
  have houtcome := r.checkShutdownProgress_outcome input
  generalize r.checkShutdownProgress input = after at houtcome ⊢
  cases houtcome with
  | serving hstate => exact .refl _
  | drained hstate hempty =>
      rw [hstate]
      exact .finish
  | late hstate hclients hlate =>
      rw [hstate]
      exact .finish
  | waiting hstate hclients hearly => exact .refl _

/-- One iteration of the event loop follows the transitions. -/
theorem advances_iterate (r : SubReactor Q) (o : NetworkOptions) (input : LoopInput Q) :
    Advances r.state (r.iterate o input).state := by
  unfold SubReactor.iterate
  split
  · exact .refl _
  next hlive =>
    have hcreated : r.state ≠ .created := fun hstate => hlive (.inl hstate)
    have hmid {ready : List ReadyEvent} {mid : SubReactor Q}
        (hmid : AfterControl o input ready r mid) : Advances r.state mid.state := by
      obtain ⟨-, rfl⟩ | ⟨-, -, hprocess⟩ := hmid
      · exact .refl _
      · have hadvances := advances_processControlRequests hcreated o input
        rw [hprocess] at hadvances
        exact hadvances
    have houtcome := iteration_outcome o input r
    generalize r.iteration o input = result at houtcome ⊢
    cases houtcome with
    | waitFailed hready => exact advances_stopped hcreated
    | drainFailed hready hcontrol hdrain => exact advances_stopped hcreated
    | controlFailed hready hcontrol hdrain hprocess => exact advances_stopped hcreated
    | stopped hready hafter hstate => exact hmid hafter
    | eventFailed hready hafter hstate hhandled => exact advances_stopped hcreated
    | @handled ready mid handled hready hafter hstate hhandled =>
        have hkept := handleReady_state o input.io input.modityOk ready mid
        rw [hhandled] at hkept
        have hcheck := advances_checkShutdownProgress (handled.cleanupClosedConnections
          input.removeOk) input
        change Advances handled.state _ at hcheck
        rw [show handled.state = mid.state from hkept] at hcheck
        exact (hmid hafter).trans hcheck

/-! ### Runs -/

/-- The answers of the system calls for the ready events satisfy `C`. -/
def Action.Answers (C : IoInput Q → Prop) : Action Q → Prop
  | .iterate input => ∀ i, C (input.io i)
  | _ => True

/-- A reactor that has not been started has no client. -/
def Idle (r : SubReactor Q) : Prop := r.state = .created → r.clients = ∅

theorem Idle.step {r : SubReactor Q} (h : r.Idle) (htidy : r.Tidy) (o : NetworkOptions)
    (action : Action Q) : (r.step o action).Idle := by
  cases action with
  | start addOk threadOk =>
      have houtcome := r.start_outcome addOk threadOk
      change (r.start addOk threadOk).Idle
      generalize r.start addOk threadOk = after at houtcome ⊢
      cases houtcome with
      | refused hcreated => exact h
      | unregistered hcreated poller => exact h
      | running hcreated poller => nofun
      | threadless hcreated poller => exact fun _ => h (htidy.published ▸ hcreated)
  | enqueClient fd =>
      obtain ⟨fds, heq⟩ := r.enqueClient_eq fd
      rw [SubReactor.step, heq]
      exact h
  | stop deadline => exact h
  | forceStop => exact h
  | iterate input =>
      intro hcreated
      change (r.iterate o input).clients = ∅
      by_cases hstate : r.state = .created
      · unfold SubReactor.iterate
        rw [if_pos (.inl hstate)]
        exact h hstate
      · exact absurd hcreated ((advances_iterate r o input).ne_created hstate)

theorem Invariant.step {o : NetworkOptions} {C : IoInput Q → Prop} {I : SubReactor Q → Prop}
    (h : Invariant o C I) {r : SubReactor Q} (htidy : r.Tidy) (hidle : r.Idle) (hr : I r)
    {action : Action Q} (hanswers : action.Answers C) : I (r.step o action) := by
  cases action with
  | start addOk threadOk =>
      by_cases hcreated : r.publishedState = .created
      · exact h.start r addOk threadOk (hidle (htidy.published ▸ hcreated)) hr
      · change I (r.start addOk threadOk)
        rw [start_of_started hcreated]
        exact hr
  | enqueClient fd =>
      obtain ⟨fds, heq⟩ := r.enqueClient_eq fd
      rw [SubReactor.step, heq]
      exact h.control r r.state r.publishedState (r.pendingClients ++ fds) r.stopRequested
        r.forceStopRequested r.requestedShutdownDeadline r.shutdownDeadline r.readings hr
  | stop deadline =>
      exact h.control r r.state r.publishedState r.pendingClients true r.forceStopRequested _
        r.shutdownDeadline r.readings hr
  | forceStop =>
      exact h.control r r.state r.publishedState r.pendingClients r.stopRequested true
        r.requestedShutdownDeadline r.shutdownDeadline r.readings hr
  | iterate input => exact h.iterate hanswers hr

/-- What the operations of the event loop keep holds in every run. -/
theorem Invariant.run {o : NetworkOptions} {C : IoInput Q → Prop} {I : SubReactor Q → Prop}
    (h : Invariant o C I) {backend : PollerBackend} {controlFd : Int} {store : Store Q}
    (hcreated : I (created backend controlFd store)) {actions : List (Action Q)}
    (hanswers : ∀ action ∈ actions, action.Answers C) :
    I ((created backend controlFd store).run o actions) := by
  have hall : ((created backend controlFd store).run o actions).Tidy ∧
      ((created backend controlFd store).run o actions).Idle ∧
      I ((created backend controlFd store).run o actions) := by
    apply (machine o).run_invariant (I := fun r => r.Tidy ∧ r.Idle ∧ I r)
    · rintro r ⟨htidy, hidle, hr⟩ action hmem
      exact ⟨htidy.step o action, hidle.step htidy o action,
        h.step htidy hidle hr (hanswers action hmem)⟩
    · exact ⟨tidy_created backend controlFd store, fun _ => rfl, hcreated⟩
  exact hall.2.2

/-! ### Properties of all connections -/

/-- `S` holds of the store, and `P` of every connection, the departed ones included. -/
structure Everywhere (S : Store Q → Prop) (P : Connection → Prop) (r : SubReactor Q) : Prop where
  store : S r.store
  clients : ∀ fd conn, r.clients.lookup fd = some conn → P conn
  departed : ∀ conn ∈ r.departed, P conn

theorem Everywhere.fail {S : Store Q → Prop} {P : Connection → Prop} {r : SubReactor Q}
    (hr : Everywhere S P r) : Everywhere S P r.fail where
  store := hr.store
  clients fd conn hlook := by cases hlook
  departed conn hmem := by
    obtain hmem | hmem := List.mem_append.mp hmem
    · exact hr.departed conn hmem
    · obtain ⟨⟨fd, conn⟩, hentry, rfl⟩ := List.mem_map.mp hmem
      exact hr.clients fd conn (KeyedMap.mem_entries_iff_lookup.mp hentry)

/-- The handlers keep `S` and `P`. -/
structure ConnectionInvariant (o : NetworkOptions) (C : IoInput Q → Prop) (S : Store Q → Prop)
    (P : Connection → Prop) : Prop where
  event : ∀ (conn : Connection) (state : ServerState) (events : IoEvent) (input : IoInput Q)
    (store : Store Q), P conn → S store → C input →
      P (conn.handleEvent o state events input store).1.1 ∧
        S (conn.handleEvent o state events input store).2
  drain : ∀ conn : Connection, P conn → P (conn.beginDrain o).1
  register : ∀ (conn : Connection) (events : IoEvent), P conn →
    P { conn with registeredEvents := events }
  close : ∀ (conn : Connection) (reason : ForcedClose), P conn → P (conn.markClosed reason.cause)
  fresh : ∀ (fd : Int) (events : IoEvent), P { fd, registeredEvents := events }

namespace ConnectionInvariant

variable {o : NetworkOptions} {C : IoInput Q → Prop} {S : Store Q → Prop} {P : Connection → Prop}
  (h : ConnectionInvariant o C S P)
include h

theorem registerInterest {r : SubReactor Q} (hr : Everywhere S P r) (fd : Int)
    {refreshed : Connection × Option IoEvent} (hconn : P refreshed.1) (modityOk : Bool) :
    Everywhere S P (r.registerInterest fd refreshed modityOk).2 := by
  obtain ⟨poller, modified, heq⟩ := r.registerInterest_eq fd refreshed modityOk
  rw [heq]
  refine ⟨hr.store, KeyedMap.forall_lookup_insert ?_ fun fd' conn _ => hr.clients fd' conn,
    hr.departed⟩
  obtain ⟨events, hregister⟩ := Connection.register_conn refreshed modified
  rw [hregister]
  exact h.register _ events hconn

/-- What the handlers keep, the event loop keeps for all connections. -/
theorem everywhere : Invariant o C (Everywhere S P) where
  event r fd conn events input modityOk hr hlook hinput := by
    have hevent := h.event conn r.state events input r.store (hr.clients fd conn hlook) hr.store
      hinput
    have hafter := h.registerInterest
      (show Everywhere S P { r with
        store := (conn.handleEvent o r.state events input r.store).2 } from
        ⟨hevent.2, hr.clients, hr.departed⟩) fd hevent.1 modityOk
    unfold Settled
    split
    · exact hafter
    · exact hafter.fail
  drain r fd conn modityOk hr hlook := by
    have hafter := h.registerInterest hr fd (h.drain conn (hr.clients fd conn hlook)) modityOk
    unfold Settled
    split
    · exact hafter
    · exact hafter.fail
  cleanup r removeOk hr := by
    refine ⟨hr.store, fun fd conn hlook => ?_, fun conn hmem => ?_⟩
    · exact hr.clients fd conn (KeyedMap.lookup_filterValues.mp hlook).1
    · obtain hmem | hmem := List.mem_append.mp hmem
      · exact hr.departed conn hmem
      · obtain ⟨⟨fd, conn⟩, hentry, rfl⟩ := List.mem_map.mp hmem
        exact hr.clients fd conn
          (KeyedMap.mem_entries_iff_lookup.mp (List.mem_filter.mp hentry).1)
  close r reason hr := by
    refine ⟨hr.store, fun fd conn hlook => ?_, hr.departed⟩
    obtain ⟨before, hbefore, rfl⟩ := KeyedMap.lookup_mapValues.mp hlook
    exact h.close before reason (hr.clients fd before hbefore)
  add r fd addOk hr := by
    have houtcome := r.addClientInLoop_outcome fd addOk
    generalize r.addClientInLoop fd addOk = after at houtcome ⊢
    cases houtcome with
    | refused => exact hr
    | registered hnew hadd =>
        exact ⟨hr.store, KeyedMap.forall_lookup_insert (h.fresh fd _)
          fun fd' conn _ => hr.clients fd' conn, hr.departed⟩
  throws r hr := hr.fail
  control r _ _ _ _ _ _ _ _ hr := ⟨hr.store, hr.clients, hr.departed⟩
  start r addOk threadOk _ hr := by
    have houtcome := r.start_outcome addOk threadOk
    generalize r.start addOk threadOk = after at houtcome ⊢
    cases houtcome with
    | refused hcreated => exact hr
    | unregistered hcreated poller => exact ⟨hr.store, hr.clients, hr.departed⟩
    | running hcreated poller => exact ⟨hr.store, hr.clients, hr.departed⟩
    | threadless hcreated poller => exact ⟨hr.store, hr.clients, hr.departed⟩

/-- What the handlers keep holds of all connections in every run. -/
theorem run {backend : PollerBackend} {controlFd : Int} {store : Store Q} (hstore : S store)
    {actions : List (Action Q)} (hanswers : ∀ action ∈ actions, action.Answers C) :
    Everywhere S P ((created backend controlFd store).run o actions) := by
  apply h.everywhere.run _ hanswers
  exact ⟨hstore, fun fd conn hlook => (by cases hlook), fun conn hmem => (by cases hmem)⟩

end ConnectionInvariant

end SubReactor

end TinyKv
