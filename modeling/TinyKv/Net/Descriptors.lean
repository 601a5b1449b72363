import TinyKv.Foundation.DescriptorTable
import TinyKv.Net.PollerInterest

/-!
# The descriptors of a reactor

A `ScopedFd` closes its descriptor when it is destroyed. Those of the clients of a reactor
are in `m_pendingClients` and in the connections of `m_clients`; each operation of the
event loop has beside it the descriptors of the `ScopedFd`s it destroys.

The other threads may come in between any two operations of an iteration, which is
therefore taken apart here.
-/

namespace TinyKv

open Foundation

variable {Q : ExpirationQueue}

namespace SubReactor

/-! ### The descriptors that are closed -/

/-- `EnqueClient` destroys its argument unless it has moved it to the queue. -/
def closedByEnqueClient (r : SubReactor Q) (fd : Int) : List Int :=
  if fd < 0 then
    []
  else if r.stopRequested || r.forceStopRequested then
    [fd]
  else
    []

/-- `CleanupClosedConnections` erases the connections that are closed. -/
def closedByCleanup (r : SubReactor Q) : List Int :=
  (r.clients.entries.filter fun e => e.2.closed).map fun e => e.2.fd

/-- `ForceCloseAllConnections` does so after it has closed all of them. -/
def closedByForceClose (r : SubReactor Q) (reason : ForcedClose) : List Int :=
  { r with clients := KeyedMap.mapValues (·.markClosed reason.cause) r.clients }.closedByCleanup

/-- `BeginGracefulShutdown` ends with a cleanup, unless the registration of a connection has
thrown. -/
def closedByBeginGracefulShutdown (o : NetworkOptions) (input : LoopInput Q)
    (deadline : TimePoint) (r : SubReactor Q) : List Int :=
  if r.state ≠ .running then
    []
  else
    match drainAll o input deadline r with
    | (false, _) => []
    | (true, r) => r.closedByCleanup

/-- `AddClientInLoop` destroys a connection that `emplace` has not inserted, and erases one
that cannot be registered. -/
def closedByAddClientInLoop (r : SubReactor Q) (fd : Int) (addOk : Bool) : List Int :=
  match r.clients.lookup fd with
  | some _ => [fd]
  | none =>
      match r.poller.add fd (Connection.desiredEvents { fd }) addOk with
      | .error _ => [fd]
      | .ok _ => []

/-- The loop over the new clients in `ProcessControlRequests`. -/
def closedByAddClients (addOk : Nat → Bool) : List Int → SubReactor Q → List Int
  | [], _ => []
  | fd :: rest, r =>
      r.closedByAddClientInLoop fd (addOk 0) ++
        closedByAddClients (fun i => addOk (i + 1)) rest (r.addClientInLoop fd (addOk 0))

/-- `ProcessControlRequests` clears the queue it has taken when the reactor is to stop. -/
def closedByProcessControlRequests (o : NetworkOptions) (input : LoopInput Q)
    (r : SubReactor Q) : List Int :=
  let pendingClients := r.pendingClients
  let r := { r with pendingClients := [] }
  if r.forceStopRequested then
    pendingClients ++ r.closedByForceClose .forceStop
  else if r.stopRequested then
    pendingClients ++ r.closedByBeginGracefulShutdown o input r.requestedShutdownDeadline
  else
    r.closedByAddClients input.addOk pendingClients

/-- `CheckShutdownProgress`. -/
def closedByCheckShutdownProgress (r : SubReactor Q) (input : LoopInput Q) : List Int :=
  if r.state ≠ .draining then
    []
  else if r.clients.entries = [] then
    []
  else if input.now ≥ r.shutdownDeadline then
    r.closedByForceClose .deadline
  else
    []

/-- The `catch` clauses of `EventLoop` clear `m_clients`. -/
def closedByFail (r : SubReactor Q) : List Int := r.clients.entries.map fun e => e.2.fd

/-- The destructor of a reactor. -/
def closedByDestructor (r : SubReactor Q) : List Int :=
  (r.clients.entries.map fun e => e.2.fd) ++ r.pendingClients

/-! ### The operations of an iteration -/

/-- The operation of an iteration that comes next; `ready` are the ready events that are
still to be handled. -/
inductive LoopStage where
  | wait
  | processControlRequests (ready : List ReadyEvent)
  | handleReady (ready : List ReadyEvent)
  | cleanupClosedConnections
  | checkShutdownProgress
deriving DecidableEq

/-- What one operation leads to. -/
structure LoopStep (Q : ExpirationQueue) where
  stage : LoopStage
  reactor : SubReactor Q
  closed : List Int := []

/-- An operation throws, after it has closed some descriptors. -/
def throwing (r : SubReactor Q) (closed : List Int) : LoopStep Q :=
  ⟨.wait, r.fail, closed ++ r.closedByFail⟩

/-- One operation of `EventLoop`. -/
def loopStep (o : NetworkOptions) (input : LoopInput Q) (stage : LoopStage) (r : SubReactor Q) :
    LoopStep Q :=
  if r.state = .created ∨ r.state = .stopped then
    ⟨stage, r, []⟩
  else
    match stage with
    | .wait =>
        match input.ready with
        | none => r.throwing []
        | some ready =>
            if r.controlEventReceived ready then
              if input.drainOk then ⟨.processControlRequests ready, r, []⟩ else r.throwing []
            else
              ⟨.handleReady ready, r, []⟩
    | .processControlRequests ready =>
        let closed := r.closedByProcessControlRequests o input
        match r.processControlRequests o input with
        | (false, r) => r.throwing closed
        | (true, r) => ⟨if r.state = .stopped then .wait else .handleReady ready, r, closed⟩
    | .handleReady [] => ⟨.cleanupClosedConnections, r, []⟩
    | .handleReady (event :: rest) =>
        match SubReactor.handleReady o input.io input.modityOk [event] r with
        | (false, r) => r.throwing []
        | (true, r) => ⟨.handleReady rest, r, []⟩
    | .cleanupClosedConnections =>
        ⟨.checkShutdownProgress, r.cleanupClosedConnections input.removeOk, r.closedByCleanup⟩
    | .checkShutdownProgress =>
        ⟨.wait, r.checkShutdownProgress input, r.closedByCheckShutdownProgress input⟩

/-- The event loop on its own. -/
def loop (o : NetworkOptions) : Machine (LoopStage × SubReactor Q) (LoopInput Q) :=
  ⟨fun s input => ((loopStep o input s.1 s.2).stage, (loopStep o input s.1 s.2).reactor)⟩

/-! ### The operations make up an iteration -/

theorem handleReady_cons (o : NetworkOptions) (io : Nat → IoInput Q) (modityOk : Nat → Bool)
    (event : ReadyEvent) (rest : List ReadyEvent) (r : SubReactor Q) :
    SubReactor.handleReady o io modityOk (event :: rest) r =
      match SubReactor.handleReady o io modityOk [event] r with
      | (false, r) => (false, r)
      | (true, r) =>
          SubReactor.handleReady o (fun i => io (i + 1)) (fun i => modityOk (i + 1)) rest r := by
  simp only [SubReactor.handleReady]
  split
  · rfl
  cases r.clients.lookup event.fd with
  | none => rfl
  | some conn =>
      simp only
      split
      · rfl
      · rfl

/-- The loop over the ready events, one after the other; by induction on them. -/
theorem loop_handleReady (o : NetworkOptions) (input : LoopInput Q) (ready : List ReadyEvent)
    {r : SubReactor Q} (hlive : ¬ (r.state = .created ∨ r.state = .stopped)) :
    ∃ inputs, (loop o).run (.handleReady ready, r) inputs =
      match SubReactor.handleReady o input.io input.modityOk ready r with
      | (false, r) => (.wait, r.fail)
      | (true, r) => (.cleanupClosedConnections, r) := by
  induction ready generalizing input r with
  | nil =>
      refine ⟨[input], ?_⟩
      simp [loop, loopStep, hlive, SubReactor.handleReady]
  | cons event rest ih =>
      rw [handleReady_cons]
      have hstate := handleReady_state o input.io input.modityOk [event] r
      cases hhandled : SubReactor.handleReady o input.io input.modityOk [event] r with
      | mk ok after =>
          cases ok with
          | false =>
              refine ⟨[input], ?_⟩
              simp [loop, loopStep, hlive, hhandled, throwing]
          | true =>
              rw [hhandled] at hstate
              obtain ⟨inputs, hrest⟩ := ih { input with
                io := fun i => input.io (i + 1)
                modityOk := fun i => input.modityOk (i + 1) }
                (r := after) (by rwa [show after.state = r.state from hstate])
              refine ⟨input :: inputs, ?_⟩
              simp only [Machine.run_cons, loop, loopStep, if_neg hlive, hhandled]
              exact hrest

/-- The first operations of an iteration. -/
theorem loop_afterControl {o : NetworkOptions} {input : LoopInput Q} {ready : List ReadyEvent}
    {r mid : SubReactor Q} (hlive : ¬ (r.state = .created ∨ r.state = .stopped))
    (hready : input.ready = some ready) (hmid : AfterControl o input ready r mid) :
    ∃ inputs, (loop o).run (.wait, r) inputs =
      (if mid.state = .stopped then .wait else .handleReady ready, mid) := by
  obtain ⟨hother, rfl⟩ | ⟨hcontrol, hdrain, hprocess⟩ := hmid
  · refine ⟨[input], ?_⟩
    obtain ⟨hcreated, hstopped⟩ := not_or.mp hlive
    simp [loop, loopStep, hready, hother, hcreated, hstopped]
  · refine ⟨[input, input], ?_⟩
    simp [loop, loopStep, hlive, hready, hcontrol, hdrain, hprocess]

/-- The other operations of an iteration, which go on until one throws. -/
theorem loop_afterReady (o : NetworkOptions) (input : LoopInput Q) (ready : List ReadyEvent)
    {r : SubReactor Q} (hlive : ¬ (r.state = .created ∨ r.state = .stopped)) :
    ∃ inputs, (loop o).run (.handleReady ready, r) inputs =
      match SubReactor.handleReady o input.io input.modityOk ready r with
      | (false, r) => (.wait, r.fail)
      | (true, r) =>
          (.wait, (r.cleanupClosedConnections input.removeOk).checkShutdownProgress input) := by
  obtain ⟨inputs, hinputs⟩ := loop_handleReady o input ready hlive
  have hstate := handleReady_state o input.io input.modityOk ready r
  generalize SubReactor.handleReady o input.io input.modityOk ready r = result at hinputs hstate ⊢
  obtain ⟨ok, after⟩ := result
  cases ok with
  | false => exact ⟨inputs, hinputs⟩
  | true =>
      have hafter : ¬ (after.state = .created ∨ after.state = .stopped) := by
        rwa [show after.state = r.state from hstate]
      have hcleaned : ¬ ((after.cleanupClosedConnections input.removeOk).state = .created ∨
          (after.cleanupClosedConnections input.removeOk).state = .stopped) := hafter
      refine ⟨inputs ++ [input, input], ?_⟩
      rw [Machine.run_append, hinputs]
      simp [loop, loopStep, hafter, hcleaned]

/-- An iteration that comes to the ready events. -/
theorem loop_handled {o : NetworkOptions} {input : LoopInput Q} {ready : List ReadyEvent}
    {r mid : SubReactor Q} (hlive : ¬ (r.state = .created ∨ r.state = .stopped))
    (hready : input.ready = some ready) (hmid : AfterControl o input ready r mid)
    (hstate : mid.state ≠ .stopped) :
    ∃ inputs, (loop o).run (.wait, r) inputs =
      match SubReactor.handleReady o input.io input.modityOk ready mid with
      | (false, r) => (.wait, r.fail)
      | (true, r) =>
          (.wait, (r.cleanupClosedConnections input.removeOk).checkShutdownProgress input) := by
  obtain ⟨first, hfirst⟩ := loop_afterControl hlive hready hmid
  rw [if_neg hstate] at hfirst
  have hcreated : mid.state ≠ .created := by
    have hbefore : r.state ≠ .created := fun hcreated => hlive (.inl hcreated)
    obtain ⟨-, rfl⟩ | ⟨-, -, hprocess⟩ := hmid
    · exact hbefore
    · have hadvances := advances_processControlRequests hbefore o input
      rw [hprocess] at hadvances
      exact hadvances.ne_created hbefore
  obtain ⟨more, hmore⟩ := loop_afterReady o input ready (not_or.mpr ⟨hcreated, hstate⟩)
  refine ⟨first ++ more, ?_⟩
  rw [Machine.run_append, hfirst]
  exact hmore

/-- An iteration that nothing interrupts. -/
theorem loop_iterate (o : NetworkOptions) (input : LoopInput Q) (r : SubReactor Q) :
    ∃ inputs, (loop o).run (.wait, r) inputs = (.wait, r.iterate o input) := by
  unfold SubReactor.iterate
  split
  · exact ⟨[], rfl⟩
  next hlive =>
    have houtcome := iteration_outcome o input r
    generalize r.iteration o input = result at houtcome ⊢
    cases houtcome with
    | waitFailed hready =>
        refine ⟨[input], ?_⟩
        simp [loop, loopStep, hlive, hready, throwing]
    | drainFailed hready hcontrol hdrain =>
        refine ⟨[input], ?_⟩
        simp [loop, loopStep, hlive, hready, hcontrol, hdrain, throwing]
    | controlFailed hready hcontrol hdrain hprocess =>
        refine ⟨[input, input], ?_⟩
        simp [loop, loopStep, hlive, hready, hcontrol, hdrain, hprocess, throwing]
    | stopped hready hmid hstate =>
        obtain ⟨inputs, hinputs⟩ := loop_afterControl hlive hready hmid
        rw [if_pos hstate] at hinputs
        exact ⟨inputs, hinputs⟩
    | eventFailed hready hmid hstate hhandled =>
        obtain ⟨inputs, hinputs⟩ := loop_handled hlive hready hmid hstate
        rw [hhandled] at hinputs
        exact ⟨inputs, hinputs⟩
    | handled hready hmid hstate hhandled =>
        obtain ⟨inputs, hinputs⟩ := loop_handled hlive hready hmid hstate
        rw [hhandled] at hinputs
        exact ⟨inputs, hinputs⟩

/-! ### The descriptors that are held -/

/-- The descriptors a reactor holds, in its queue and as the keys of its clients. -/
def held (r : SubReactor Q) : List Int := r.pendingClients ++ r.clients.keys

/-- The members that hold descriptors. -/
def owned (r : SubReactor Q) : List Int × KeyedMap Int Connection := (r.pendingClients, r.clients)

/-- Every client is kept under its descriptor. -/
def Keyed (r : SubReactor Q) : Prop :=
  ∀ fd conn, r.clients.lookup fd = some conn → conn.fd = fd

theorem Keyed.insert {r : SubReactor Q} (h : r.Keyed) (fd : Int) (conn : Connection)
    (hfd : conn.fd = fd) (fd' : Int) (other : Connection)
    (hlook : (r.clients.insert fd conn).lookup fd' = some other) : other.fd = fd' :=
  KeyedMap.forall_lookup_insert (P := fun fd conn => conn.fd = fd) hfd
    (fun fd' other _ => h fd' other) fd' other hlook

theorem keyed_registerInterest {r : SubReactor Q} (h : r.Keyed) {fd : Int} {conn : Connection}
    (hlook : r.clients.lookup fd = some conn) {refreshed : Connection × Option IoEvent}
    (hkeeps : Connection.KeepsRegistration conn refreshed.1) (modityOk : Bool) :
    (r.registerInterest fd refreshed modityOk).2.Keyed := by
  obtain ⟨poller, modified, heq⟩ := r.registerInterest_eq fd refreshed modityOk
  obtain ⟨events, hregister⟩ := Connection.register_conn refreshed modified
  rw [heq, hregister]
  exact h.insert fd { refreshed.1 with registeredEvents := events }
    (hkeeps.fd.trans (h fd conn hlook))

/-- The operations of the event loop keep the clients under their descriptors, whether they
throw or not. -/
theorem keyed_operations (o : NetworkOptions) :
    Operations (Q := Q) o (fun _ => True) Keyed Keyed where
  event r fd conn events input modityOk hr hlook _ := by
    have hafter := keyed_registerInterest (r := { r with
      store := (conn.handleEvent o r.state events input r.store).2 }) hr hlook
      (Connection.refreshed_handleEvent o r.state events input r.store conn).registration modityOk
    unfold Settled
    split
    · exact hafter
    · exact hafter
  drain r fd conn modityOk hr hlook := by
    have hafter := keyed_registerInterest hr hlook
      (Connection.refreshed_beginDrain o conn).registration modityOk
    unfold Settled
    split
    · exact hafter
    · exact hafter
  cleanup r removeOk hr fd conn hlook := hr fd conn (KeyedMap.lookup_filterValues.mp hlook).1
  close r reason hr fd conn hlook := by
    obtain ⟨before, hbefore, rfl⟩ := KeyedMap.lookup_mapValues.mp hlook
    exact hr fd before hbefore
  add r fd addOk hr := by
    have houtcome := r.addClientInLoop_outcome fd addOk
    generalize r.addClientInLoop fd addOk = after at houtcome ⊢
    cases houtcome with
    | refused => exact hr
    | registered hnew hadd =>
        exact hr.insert fd { fd, registeredEvents := Connection.desiredEvents { fd } } rfl
  throws r hr := hr
  control r _ _ _ _ _ _ _ _ hr := hr

theorem Keyed.of_settled {result : Bool × SubReactor Q} (h : Settled Keyed Keyed result) :
    result.2.Keyed := by
  unfold Settled at h
  split at h
  · exact h
  · exact h

theorem Keyed.processControlRequests {r : SubReactor Q} (h : r.Keyed) (o : NetworkOptions)
    (input : LoopInput Q) : (SubReactor.processControlRequests o input r).2.Keyed :=
  .of_settled ((keyed_operations o).processControlRequests input h)

theorem Keyed.handleReady {r : SubReactor Q} (h : r.Keyed) (o : NetworkOptions)
    (io : Nat → IoInput Q) (modityOk : Nat → Bool) (ready : List ReadyEvent) :
    (SubReactor.handleReady o io modityOk ready r).2.Keyed :=
  .of_settled ((keyed_operations o).handleReady (fun _ => trivial) modityOk ready h)

theorem Keyed.enqueClient {r : SubReactor Q} (h : r.Keyed) (fd : Int) :
    (r.enqueClient fd).Keyed := by
  obtain ⟨fds, heq⟩ := r.enqueClient_eq fd
  rw [heq]
  exact h

theorem keyed_fail (r : SubReactor Q) : r.fail.Keyed := nofun

theorem Keyed.map_fd {r : SubReactor Q} (h : r.Keyed)
    {entries : List (Sigma fun _ : Int => Connection)} (hsub : entries ⊆ r.clients.entries) :
    (entries.map fun e => e.2.fd) = entries.map Sigma.fst := by
  apply List.map_congr_left
  rintro ⟨fd, conn⟩ hmem
  exact h fd conn (KeyedMap.mem_entries_iff_lookup.mp (hsub hmem))

/-- The cleanup closes the descriptors it removes. -/
theorem held_cleanup {r : SubReactor Q} (h : r.Keyed) (removeOk : Int → Bool) :
    r.held.Perm (r.closedByCleanup ++ (r.cleanupClosedConnections removeOk).held) := by
  have hclosed : r.closedByCleanup = (r.clients.entries.filter fun e => e.2.closed).map Sigma.fst :=
    h.map_fd (List.filter_subset_self _)
  have hkeys := KeyedMap.keys_filterValues (·.closed) r.clients
  rw [hclosed]
  exact (hkeys.append_left r.pendingClients).trans (List.perm_append_comm_assoc ..)

theorem held_forceClose {r : SubReactor Q} (h : r.Keyed) (reason : ForcedClose)
    (removeOk : Int → Bool) :
    r.held.Perm (r.closedByForceClose reason ++
      (r.forceCloseAllConnections reason removeOk).held) := by
  have hmarked := held_cleanup
    (r := { r with
      calls := r.calls ++ [.addForcedShutdownConnections (KeyedMap.size r.clients)]
      clients := KeyedMap.mapValues (·.markClosed reason.cause) r.clients })
    ((keyed_operations {}).close r reason h) removeOk
  simp only [held, KeyedMap.keys_mapValues] at hmarked
  exact hmarked

/-- Connections that are changed one by one are kept under the same descriptors. -/
theorem held_rel {r : SubReactor Q} {R : Connection → Connection → Prop}
    {clients : KeyedMap Int Connection} (hrel : KeyedMap.Rel R r.clients clients)
    {r' : SubReactor Q} (hpending : r'.pendingClients = r.pendingClients)
    (hclients : r'.clients = clients) : r.held.Perm r'.held := by
  unfold held
  rw [hpending, hclients]
  exact hrel.keys_perm.append_left r.pendingClients

theorem held_handleReady (o : NetworkOptions) (io : Nat → IoInput Q) (modityOk : Nat → Bool)
    (ready : List ReadyEvent) (r : SubReactor Q) :
    r.held.Perm (SubReactor.handleReady o io modityOk ready r).2.held := by
  obtain ⟨poller, clients, store, heq, hrel, -⟩ :=
    handleReady_rel (R := fun _ _ => True) (fun _ => trivial) (fun _ _ _ _ _ => trivial)
      (fun _ _ _ _ _ => trivial) io modityOk ready r rfl
  rw [heq]
  exact held_rel hrel rfl rfl

theorem held_drainAll (o : NetworkOptions) (input : LoopInput Q) (deadline : TimePoint)
    (r : SubReactor Q) : r.held.Perm (drainAll o input deadline r).2.held := by
  obtain ⟨poller, clients, heq, hrel⟩ :=
    drainAll_rel (R := fun _ _ => True) (fun _ => trivial) (fun _ _ _ _ _ => trivial)
      (o := o) (fun _ _ => trivial) input deadline r
  rw [heq]
  exact held_rel hrel rfl rfl

theorem held_beginGracefulShutdown {r : SubReactor Q} (h : r.Keyed) (o : NetworkOptions)
    (input : LoopInput Q) (deadline : TimePoint) :
    r.held.Perm (closedByBeginGracefulShutdown o input deadline r ++
      (beginGracefulShutdown o input deadline r).2.held) := by
  have hdraining : (r.drainUntil deadline).Keyed := h
  have hkeyed := Keyed.of_settled
    ((keyed_operations o).drainClients input.drainModityOk r.clients.keys hdraining)
  have hheld := held_drainAll o input deadline r
  have houtcome := beginGracefulShutdown_outcome o input deadline r
  unfold closedByBeginGracefulShutdown
  change (drainAll o input deadline r).2.Keyed at hkeyed
  generalize SubReactor.beginGracefulShutdown o input deadline r = result at houtcome ⊢
  cases houtcome with
  | repeated hstate =>
      rw [if_pos hstate]
      exact .refl _
  | failed hstate hdrained =>
      rw [hdrained] at hheld
      rw [if_neg (not_not.mpr hstate), hdrained]
      exact hheld
  | finished hstate hdrained hempty =>
      rw [hdrained] at hheld hkeyed
      rw [if_neg (not_not.mpr hstate), hdrained]
      exact hheld.trans (held_cleanup hkeyed input.removeOk)
  | begun hstate hdrained hclients =>
      rw [hdrained] at hheld hkeyed
      rw [if_neg (not_not.mpr hstate), hdrained]
      exact hheld.trans (held_cleanup hkeyed input.removeOk)

/-- `AddClientInLoop` keeps the descriptor it is given, or closes it. -/
theorem held_addClientInLoop (r : SubReactor Q) (fd : Int) (addOk : Bool) :
    (fd :: r.held).Perm
      (r.closedByAddClientInLoop fd addOk ++ (r.addClientInLoop fd addOk).held) := by
  unfold closedByAddClientInLoop addClientInLoop
  cases hlook : r.clients.lookup fd with
  | some conn => exact .refl _
  | none =>
      simp only
      cases r.poller.add fd (Connection.desiredEvents { fd }) addOk with
      | error e => exact .refl _
      | ok poller =>
          simp only [held, KeyedMap.keys_insert_new _ hlook, List.nil_append]
          exact List.perm_middle.symm

/-- The loop over the new clients; by induction on them. -/
theorem held_addClients (addOk : Nat → Bool) (fds : List Int) (r : SubReactor Q) :
    (fds ++ r.held).Perm (closedByAddClients addOk fds r ++ (addClients addOk fds r).held) := by
  induction fds generalizing addOk r with
  | nil => exact .refl _
  | cons fd rest ih =>
      have hone := r.held_addClientInLoop fd (addOk 0)
      have hrest := ih (fun i => addOk (i + 1)) (r.addClientInLoop fd (addOk 0))
      rw [closedByAddClients, addClients, List.append_assoc]
      calc List.Perm (fd :: rest ++ r.held) (rest ++ fd :: r.held) := List.perm_middle.symm
        List.Perm _ (rest ++ (r.closedByAddClientInLoop fd (addOk 0) ++
            (r.addClientInLoop fd (addOk 0)).held)) := hone.append_left rest
        List.Perm _ (r.closedByAddClientInLoop fd (addOk 0) ++
            (rest ++ (r.addClientInLoop fd (addOk 0)).held)) := List.perm_append_comm_assoc ..
        List.Perm _ _ := hrest.append_left _

theorem held_processControlRequests {r : SubReactor Q} (h : r.Keyed) (o : NetworkOptions)
    (input : LoopInput Q) :
    r.held.Perm (r.closedByProcessControlRequests o input ++
      (SubReactor.processControlRequests o input r).2.held) := by
  have htaken : ({ r with pendingClients := [] } : SubReactor Q).Keyed := h
  unfold closedByProcessControlRequests SubReactor.processControlRequests
  simp only
  split
  · rw [List.append_assoc]
    exact (held_forceClose htaken .forceStop input.removeOk).append_left r.pendingClients
  split
  · rw [List.append_assoc]
    exact (held_beginGracefulShutdown htaken o input _).append_left r.pendingClients
  · exact held_addClients input.addOk r.pendingClients { r with pendingClients := [] }

theorem held_checkShutdownProgress {r : SubReactor Q} (h : r.Keyed) (input : LoopInput Q) :
    r.held.Perm (r.closedByCheckShutdownProgress input ++
      (r.checkShutdownProgress input).held) := by
  have hread : ({ r with readings := r.readings ++ [input.now] } : SubReactor Q).Keyed := h
  unfold closedByCheckShutdownProgress checkShutdownProgress
  split
  · exact .refl _
  split
  · exact .refl _
  simp only
  split
  · exact held_forceClose hread .deadline input.removeOk
  · exact .refl _

theorem held_fail {r : SubReactor Q} (h : r.Keyed) :
    r.held.Perm (r.closedByFail ++ r.fail.held) := by
  have hclosed : r.closedByFail = r.clients.keys := h.map_fd (List.Subset.refl _)
  rw [hclosed]
  change (r.pendingClients ++ r.clients.keys).Perm (r.clients.keys ++ (r.pendingClients ++ []))
  rw [List.append_nil]
  exact List.perm_append_comm

theorem held_destructor {r : SubReactor Q} (h : r.Keyed) : r.held.Perm r.closedByDestructor := by
  have hclosed : (r.clients.entries.map fun e => e.2.fd) = r.clients.keys :=
    h.map_fd (List.Subset.refl _)
  unfold closedByDestructor
  rw [hclosed]
  exact List.perm_append_comm

/-- The outcomes of one operation. -/
inductive Looped (o : NetworkOptions) (input : LoopInput Q) (r : SubReactor Q) :
    LoopStep Q → Prop where
  | idle (stage : LoopStage) : Looped o input r ⟨stage, r, []⟩
  | threw : Looped o input r (r.throwing [])
  | controlFailed {after : SubReactor Q}
      (hprocess : r.processControlRequests o input = (false, after)) :
      Looped o input r (after.throwing (r.closedByProcessControlRequests o input))
  | controlled (stage : LoopStage) {after : SubReactor Q}
      (hprocess : r.processControlRequests o input = (true, after)) :
      Looped o input r ⟨stage, after, r.closedByProcessControlRequests o input⟩
  | eventFailed {event : ReadyEvent} {after : SubReactor Q}
      (hhandled : SubReactor.handleReady o input.io input.modityOk [event] r = (false, after)) :
      Looped o input r (after.throwing [])
  | handled (stage : LoopStage) {event : ReadyEvent} {after : SubReactor Q}
      (hhandled : SubReactor.handleReady o input.io input.modityOk [event] r = (true, after)) :
      Looped o input r ⟨stage, after, []⟩
  | cleaned (stage : LoopStage) :
      Looped o input r ⟨stage, r.cleanupClosedConnections input.removeOk, r.closedByCleanup⟩
  | checked (stage : LoopStage) :
      Looped o input r
        ⟨stage, r.checkShutdownProgress input, r.closedByCheckShutdownProgress input⟩

theorem loopStep_outcome (o : NetworkOptions) (input : LoopInput Q) (stage : LoopStage)
    (r : SubReactor Q) : Looped o input r (loopStep o input stage r) := by
  unfold loopStep
  split
  · exact .idle stage
  cases stage with
  | wait =>
      simp only
      cases input.ready with
      | none => exact .threw
      | some ready =>
          simp only
          split
          · split
            · exact .idle _
            · exact .threw
          · exact .idle _
  | processControlRequests ready =>
      simp only
      split
      · next after hprocess => exact .controlFailed hprocess
      · next after hprocess => exact .controlled _ hprocess
  | handleReady ready =>
      cases ready with
      | nil => exact .idle _
      | cons event rest =>
          simp only
          split
          · next after hhandled => exact .eventFailed hhandled
          · next after hhandled => exact .handled _ hhandled
  | cleanupClosedConnections => exact .cleaned _
  | checkShutdownProgress => exact .checked _

theorem Keyed.loopStep {r : SubReactor Q} (h : r.Keyed) (o : NetworkOptions) (input : LoopInput Q)
    (stage : LoopStage) : (loopStep o input stage r).reactor.Keyed := by
  have houtcome := loopStep_outcome o input stage r
  generalize SubReactor.loopStep o input stage r = result at houtcome ⊢
  cases houtcome with
  | idle => exact h
  | threw => exact keyed_fail r
  | @controlFailed after hprocess => exact keyed_fail after
  | controlled _ hprocess =>
      have hafter := h.processControlRequests o input
      rw [hprocess] at hafter
      exact hafter
  | @eventFailed event after hhandled => exact keyed_fail after
  | @handled _ event after hhandled =>
      have hafter := h.handleReady o input.io input.modityOk [event]
      rw [hhandled] at hafter
      exact hafter
  | cleaned => exact (keyed_operations o).cleanup r input.removeOk h
  | checked => exact (keyed_operations o).checkShutdownProgress input h

/-- `EnqueClient` keeps the descriptor it is given, or closes it. -/
theorem held_enqueClient (r : SubReactor Q) {fd : Int} (hfd : 0 ≤ fd) :
    ([fd] ++ r.held).Perm (r.closedByEnqueClient fd ++ (r.enqueClient fd).held) := by
  unfold closedByEnqueClient enqueClient
  rw [if_neg (Int.not_lt.mpr hfd), if_neg (Int.not_lt.mpr hfd)]
  split
  · exact .refl _
  · simp only [held, List.nil_append, List.append_assoc]
    exact List.perm_append_comm_assoc ..

/-- What an operation does not close, the reactor still holds. -/
theorem held_loopStep {r : SubReactor Q} (h : r.Keyed) (o : NetworkOptions) (input : LoopInput Q)
    (stage : LoopStage) :
    r.held.Perm ((loopStep o input stage r).closed ++ (loopStep o input stage r).reactor.held) := by
  have houtcome := loopStep_outcome o input stage r
  generalize SubReactor.loopStep o input stage r = result at houtcome ⊢
  cases houtcome with
  | idle => exact .refl _
  | threw => exact held_fail h
  | @controlFailed after hprocess =>
      have hheld := held_processControlRequests h o input
      have hafter := h.processControlRequests o input
      rw [hprocess] at hheld hafter
      have hall := hheld.trans ((held_fail hafter).append_left _)
      rw [← List.append_assoc] at hall
      exact hall
  | controlled _ hprocess =>
      have hheld := held_processControlRequests h o input
      rw [hprocess] at hheld
      exact hheld
  | @eventFailed event after hhandled =>
      have hheld := held_handleReady o input.io input.modityOk [event] r
      have hafter := h.handleReady o input.io input.modityOk [event]
      rw [hhandled] at hheld hafter
      exact hheld.trans (held_fail hafter)
  | @handled _ event after hhandled =>
      have hheld := held_handleReady o input.io input.modityOk [event] r
      rw [hhandled] at hheld
      exact hheld
  | cleaned => exact held_cleanup h input.removeOk
  | checked => exact held_checkShutdownProgress h input

/-! ### The error of a descriptor that exists already -/

/-- In one of its calls for the given descriptors, `AddClientInLoop` finds the descriptor among
the clients, which it reports as `client fd already exist`. -/
def FindsExisting (addOk : Nat → Bool) : List Int → SubReactor Q → Prop
  | [], _ => False
  | fd :: rest, r =>
      fd ∈ r.clients ∨
        FindsExisting (fun i => addOk (i + 1)) rest (r.addClientInLoop fd (addOk 0))

/-- Descriptors that are held once are not found; by induction on the new clients. -/
theorem not_findsExisting (addOk : Nat → Bool) (fds : List Int) {r : SubReactor Q}
    (h : (fds ++ r.held).Nodup) : ¬ FindsExisting addOk fds r := by
  induction fds generalizing addOk r with
  | nil => exact not_false
  | cons fd rest ih =>
      have hnew : fd ∉ rest ++ r.held := (List.nodup_cons.mp h).1
      have hone := (r.held_addClientInLoop fd (addOk 0)).append_left rest
      have hafter : (rest ++ (r.addClientInLoop fd (addOk 0)).held).Nodup := by
        have hall := hone.nodup_iff.mp (List.perm_middle.nodup_iff.mpr h)
        have hmoved := (List.perm_append_comm_assoc ..).nodup_iff.mp hall
        exact hmoved.of_append_right
      rintro (hmem | hlater)
      · apply hnew
        exact List.mem_append_right _ (List.mem_append_right _ hmem)
      · exact ih _ hafter hlater

end SubReactor

end TinyKv
