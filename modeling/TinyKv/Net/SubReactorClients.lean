import TinyKv.Net.Requests
import TinyKv.Net.SubReactor

/-!
# The clients of a reactor

What the operations of a reactor can do. Its loops change the connections one by one and
leave the control members alone. Between iterations every connection is open, and a stopped
reactor has none.
-/

namespace TinyKv

open Foundation

variable {Q : ExpirationQueue}

namespace Connection

/-- An open connection has never been closed. -/
def Clean (conn : Connection) : Prop := conn.closed = false → conn.trace.causes = []

theorem clean_markClosed (conn : Connection) (cause : CloseCause) :
    (conn.markClosed cause).Clean := nofun

theorem Delivers.clean {a b : Connection} (hab : Delivers a b) (h : a.Clean) : b.Clean := by
  intro hopen
  rw [hab.kept hopen]
  exact h (hab.opened hopen).1

theorem clean_rejectOversizedReadBuffer {o : NetworkOptions} {conn : Connection} (h : conn.Clean) :
    (conn.rejectOversizedReadBuffer o).Clean := by
  unfold rejectOversizedReadBuffer
  rcases queueResponse_cases o conn (ascii "-ERR request buffer too large") with
    ⟨cause, calls, -, -, heq⟩ | ⟨paused, calls, -, -, -, heq⟩
  · rw [heq]
    exact clean_markClosed _ _
  · rw [heq]
    exact h

theorem clean_handleClientRead {o : NetworkOptions} {conn : Connection} (h : conn.Clean)
    (input : IoInput Q) (store : Store Q) :
    (conn.handleClientRead o input store).1.Clean := by
  by_cases hreading : conn.Reading
  swap
  · rw [handleClientRead_refused hreading]
    exact h
  have houtcome := handleClientRead_outcome hreading o input store
  generalize conn.handleClientRead o input store = result at houtcome ⊢
  cases houtcome with
  | oversized hfull => exact clean_rejectOversizedReadBuffer h
  | ended hroom hrecv hnil => exact clean_markClosed _ _
  | @bytes ready hroom hrecv hnil =>
      intro hopen
      have hreceived := received_receiveBytes o input.ambient store hreading.opened
        hreading.serving (ready.take (conn.readSize o))
      obtain ⟨-, hcauses, -⟩ := hreceived.outcome.resolve_left (not_refused hopen)
      rw [hcauses]
      exact h hreading.opened
  | wouldBlock hrecv => exact h
  | failed hrecv => exact clean_markClosed _ _

theorem clean_handleEvent {o : NetworkOptions} {conn : Connection} (h : conn.Clean)
    (state : ServerState) (events : IoEvent) (input : IoInput Q) (store : Store Q) :
    (conn.handleEvent o state events input store).1.1.Clean := by
  rw [handleEvent_cases]
  split
  · exact clean_markClosed _ _
  split
  · exact (delivers_afterRead o events input _).clean (clean_handleClientRead h input store)
  · exact (delivers_afterRead o events input conn).clean h

theorem delivers_register (refreshed : Connection × Option IoEvent) (modityOk : Bool) :
    Delivers refreshed.1 (register refreshed modityOk).2 := by
  obtain ⟨events, heq⟩ := register_conn refreshed modityOk
  rw [heq]
  exact .register refreshed.1 events

end Connection

namespace SubReactor

/-! ### The loops over the clients -/

/-- Registering the interests of a connection changes the poller and this connection. -/
theorem registerInterest_eq (r : SubReactor Q) (fd : Int)
    (refreshed : Connection × Option IoEvent) (modityOk : Bool) :
    ∃ poller modified, (r.registerInterest fd refreshed modityOk).2 =
      { r with
        poller
        clients := r.clients.insert fd (Connection.register refreshed modified).2 } := by
  unfold registerInterest
  cases refreshed.2 with
  | none => exact ⟨r.poller, true, rfl⟩
  | some desired =>
      simp only
      cases r.poller.modity refreshed.1.fd desired modityOk with
      | error e => exact ⟨r.poller, false, rfl⟩
      | ok poller => exact ⟨poller, true, rfl⟩

section Loops

variable {R : Connection → Connection → Prop} (hrefl : ∀ conn, R conn conn)
  (htrans : ∀ ⦃a b c⦄, R a b → R b c → R a c)
include hrefl htrans

/-- The loop of `BeginGracefulShutdown` relates the connections as its body does; by
induction on the descriptors. -/
theorem drainClients_rel {o : NetworkOptions}
    (hdrain : ∀ conn modified, R conn (Connection.register (conn.beginDrain o) modified).2)
    (modityOk : Int → Bool) (fds : List Int) (r : SubReactor Q) :
    ∃ poller clients, (drainClients o modityOk fds r).2 = { r with poller, clients } ∧
      KeyedMap.Rel R r.clients clients := by
  induction fds generalizing r with
  | nil => exact ⟨r.poller, r.clients, rfl, .refl hrefl r.clients⟩
  | cons fd rest ih =>
      unfold drainClients
      cases hlook : r.clients.lookup fd with
      | none => exact ih r
      | some conn =>
          obtain ⟨poller, modified, heq⟩ :=
            r.registerInterest_eq fd (conn.beginDrain o) (modityOk fd)
          have hinsert := KeyedMap.Rel.insert hrefl hlook (hdrain conn modified)
          simp only
          generalize r.registerInterest fd (conn.beginDrain o) (modityOk fd) = result at heq ⊢
          obtain ⟨ok, after⟩ := result
          subst heq
          cases ok with
          | false => exact ⟨poller, _, rfl, hinsert⟩
          | true =>
              obtain ⟨poller', clients, hrest, hrel⟩ := ih _
              exact ⟨poller', clients, hrest, hinsert.trans htrans hrel⟩

/-- The loop over the ready events relates the connections as its body does; by induction
on the ready events. -/
theorem handleReady_rel {o : NetworkOptions} {state : ServerState}
    (hevent : ∀ conn events (input : IoInput Q) store modified,
      R conn (Connection.register (conn.handleEvent o state events input store).1 modified).2)
    (io : Nat → IoInput Q) (modityOk : Nat → Bool) (ready : List ReadyEvent)
    (r : SubReactor Q) (hstate : r.state = state) :
    ∃ poller clients store,
      (handleReady o io modityOk ready r).2 = { r with poller, clients, store } ∧
        KeyedMap.Rel R r.clients clients ∧ (state ≠ .running → store = r.store) := by
  induction ready generalizing io modityOk r with
  | nil => exact ⟨r.poller, r.clients, r.store, rfl, .refl hrefl r.clients, fun _ => rfl⟩
  | cons event rest ih =>
      subst hstate
      unfold handleReady
      by_cases hcontrol : event.fd = r.controlFd
      · rw [if_pos hcontrol]
        exact ih _ _ r rfl
      rw [if_neg hcontrol]
      cases hlook : r.clients.lookup event.fd with
      | none => exact ih _ _ r rfl
      | some conn =>
          have hhandled := hevent conn event.events (io 0) r.store
          have hstore : r.state ≠ .running →
              (conn.handleEvent o r.state event.events (io 0) r.store).2 = r.store :=
            fun h => (Connection.delivers_handleEvent o h event.events (io 0) r.store conn).2
          simp only
          generalize conn.handleEvent o r.state event.events (io 0) r.store = handled
            at hhandled hstore ⊢
          obtain ⟨poller, modified, heq⟩ :=
            { r with store := handled.2 }.registerInterest_eq event.fd handled.1 (modityOk 0)
          have hinsert := KeyedMap.Rel.insert hrefl hlook (hhandled modified)
          generalize { r with store := handled.2 }.registerInterest event.fd handled.1
            (modityOk 0) = result at heq ⊢
          obtain ⟨ok, after⟩ := result
          change after = _ at heq
          have hafter : after.state = r.state := by rw [heq]
          cases ok with
          | false => exact ⟨poller, _, handled.2, heq, hinsert, hstore⟩
          | true =>
              obtain ⟨poller', clients, store, hrest, hrel, hkept⟩ := ih (fun i => io (i + 1))
                (fun i => modityOk (i + 1)) after hafter
              rw [heq] at hrel hkept
              exact ⟨poller', clients, store, hrest.trans (by rw [heq]), hinsert.trans htrans hrel,
                fun h => (hkept h).trans (hstore h)⟩

end Loops

/-- Of the other members, the handling of the ready events changes none. -/
theorem handleReady_eq (o : NetworkOptions) (io : Nat → IoInput Q) (modityOk : Nat → Bool)
    (ready : List ReadyEvent) (r : SubReactor Q) : ∃ poller clients store,
      (handleReady o io modityOk ready r).2 = { r with poller, clients, store } := by
  obtain ⟨poller, clients, store, heq, -, -⟩ :=
    handleReady_rel (R := fun _ _ => True) (fun _ => trivial) (fun _ _ _ _ _ => trivial)
      (fun _ _ _ _ _ => trivial) io modityOk ready r rfl
  exact ⟨poller, clients, store, heq⟩

/-! ### Connections that are closed -/

/-- No connection is left after a forced close. -/
theorem forceCloseAllConnections_clients (r : SubReactor Q) (reason : ForcedClose)
    (removeOk : Int → Bool) : (r.forceCloseAllConnections reason removeOk).clients = ∅ := by
  apply KeyedMap.eq_empty_of_lookup_none
  intro fd
  apply Option.eq_none_iff_forall_ne_some.mpr
  intro conn hlook
  obtain ⟨hlook, hopen⟩ := KeyedMap.lookup_filterValues.mp hlook
  obtain ⟨before, -, rfl⟩ := KeyedMap.lookup_mapValues.mp hlook
  cases hopen

theorem clients_eq_empty {r : SubReactor Q} (h : r.clients.entries = []) : r.clients = ∅ :=
  AList.ext h

/-! ### What the operations can do -/

/-- `Start` works only in the state `Created`. Without a thread this is published again. -/
inductive Started (r : SubReactor Q) : SubReactor Q → Prop where
  | refused (hcreated : r.publishedState ≠ .created) : Started r r
  | unregistered (hcreated : r.publishedState = .created) (poller : Poller) :
      Started r { r with poller }
  | running (hcreated : r.publishedState = .created) (poller : Poller) :
      Started r ({ r with poller }.publishState .running)
  | threadless (hcreated : r.publishedState = .created) (poller : Poller) :
      Started r ({ r with poller }.publishState .created)

theorem start_outcome (r : SubReactor Q) (addOk threadOk : Bool) :
    Started r (r.start addOk threadOk) := by
  unfold start
  split
  · next hcreated => exact .refused hcreated
  next hcreated =>
    have hcreated := not_not.mp hcreated
    simp only
    cases Poller.add _ r.controlFd { read := true } addOk with
    | error e => exact .unregistered hcreated _
    | ok poller =>
        cases threadOk with
        | true => exact .running hcreated poller
        | false => exact .threadless hcreated _

theorem start_of_started {r : SubReactor Q} (h : r.publishedState ≠ .created)
    (addOk threadOk : Bool) : r.start addOk threadOk = r := if_pos h

/-- `EnqueClient` only extends the queue. -/
theorem enqueClient_eq (r : SubReactor Q) (fd : Int) :
    ∃ fds, r.enqueClient fd = { r with pendingClients := r.pendingClients ++ fds } := by
  have hsame : r = { r with pendingClients := r.pendingClients ++ [] } := by
    rw [List.append_nil]
  unfold enqueClient
  split
  · exact ⟨[], hsame⟩
  split
  · exact ⟨[], hsame⟩
  · exact ⟨[fd], rfl⟩

/-- `AddClientInLoop` registers a new descriptor, or changes nothing. -/
inductive Added (r : SubReactor Q) (fd : Int) : SubReactor Q → Prop where
  | refused : Added r fd r
  | registered {addOk : Bool} {poller : Poller} (hnew : r.clients.lookup fd = none)
      (hadd : r.poller.add fd (Connection.desiredEvents { fd }) addOk = .ok poller) :
      Added r fd { r with
        poller
        clients := r.clients.insert fd
          { fd, registeredEvents := Connection.desiredEvents { fd } }
        calls := r.calls ++ [.onConnectionAccepted] }

theorem addClientInLoop_outcome (r : SubReactor Q) (fd : Int) (addOk : Bool) :
    Added r fd (r.addClientInLoop fd addOk) := by
  unfold addClientInLoop
  cases hlook : r.clients.lookup fd with
  | some conn => exact .refused
  | none =>
      simp only
      cases hadd : r.poller.add fd (Connection.desiredEvents { fd }) addOk with
      | error e => exact .refused
      | ok poller => exact .registered hlook hadd

/-- Of the other members, the registration of the new clients changes none. -/
theorem addClients_eq (fds : List Int) (addOk : Nat → Bool) (r : SubReactor Q) :
    ∃ poller clients calls, addClients addOk fds r = { r with poller, clients, calls } := by
  induction fds generalizing addOk r with
  | nil => exact ⟨r.poller, r.clients, r.calls, rfl⟩
  | cons fd rest ih =>
      have houtcome := r.addClientInLoop_outcome fd (addOk 0)
      unfold addClients
      generalize r.addClientInLoop fd (addOk 0) = after at houtcome ⊢
      obtain ⟨poller, clients, calls, heq⟩ := ih (fun i => addOk (i + 1)) after
      rw [heq]
      cases houtcome with
      | refused => exact ⟨poller, clients, calls, rfl⟩
      | registered hnew hadd => exact ⟨poller, clients, calls, rfl⟩

/-- A running reactor begins to drain. -/
def drainUntil (r : SubReactor Q) (deadline : TimePoint) : SubReactor Q :=
  { r with shutdownDeadline := deadline }.publishState .draining

/-- The loop over the connections of a reactor that begins to drain. -/
def drainAll (o : NetworkOptions) (input : LoopInput Q) (deadline : TimePoint)
    (r : SubReactor Q) : Bool × SubReactor Q :=
  drainClients o input.drainModityOk r.clients.keys (r.drainUntil deadline)

theorem drainAll_rel {R : Connection → Connection → Prop} (hrefl : ∀ conn, R conn conn)
    (htrans : ∀ ⦃a b c⦄, R a b → R b c → R a c) {o : NetworkOptions}
    (hdrain : ∀ conn modified, R conn (Connection.register (conn.beginDrain o) modified).2)
    (input : LoopInput Q) (deadline : TimePoint) (r : SubReactor Q) :
    ∃ poller clients, (drainAll o input deadline r).2 =
        { r.drainUntil deadline with poller, clients } ∧ KeyedMap.Rel R r.clients clients :=
  drainClients_rel hrefl htrans hdrain input.drainModityOk r.clients.keys (r.drainUntil deadline)

/-- Of the other members, the draining of the connections changes none. -/
theorem drainAll_eq (o : NetworkOptions) (input : LoopInput Q) (deadline : TimePoint)
    (r : SubReactor Q) : ∃ poller clients, (drainAll o input deadline r).2 =
      { r.drainUntil deadline with poller, clients } := by
  obtain ⟨poller, clients, heq, -⟩ :=
    drainAll_rel (R := fun _ _ => True) (fun _ => trivial) (fun _ _ _ _ _ => trivial)
      (o := o) (fun _ _ => trivial) input deadline r
  exact ⟨poller, clients, heq⟩

/-- `BeginGracefulShutdown` concerns a running reactor, which stops at once when all its
connections have been closed. -/
inductive ShutDown (o : NetworkOptions) (input : LoopInput Q) (deadline : TimePoint)
    (r : SubReactor Q) : Bool × SubReactor Q → Prop where
  | repeated (hstate : r.state ≠ .running) : ShutDown o input deadline r (true, r)
  | failed {after : SubReactor Q} (hstate : r.state = .running)
      (hdrained : drainAll o input deadline r = (false, after)) :
      ShutDown o input deadline r (false, after)
  | finished {after : SubReactor Q} (hstate : r.state = .running)
      (hdrained : drainAll o input deadline r = (true, after))
      (hempty : (after.cleanupClosedConnections input.removeOk).clients = ∅) :
      ShutDown o input deadline r
        (true, (after.cleanupClosedConnections input.removeOk).publishState .stopped)
  | begun {after : SubReactor Q} (hstate : r.state = .running)
      (hdrained : drainAll o input deadline r = (true, after))
      (hclients : (after.cleanupClosedConnections input.removeOk).clients ≠ ∅) :
      ShutDown o input deadline r (true, after.cleanupClosedConnections input.removeOk)

theorem beginGracefulShutdown_outcome (o : NetworkOptions) (input : LoopInput Q)
    (deadline : TimePoint) (r : SubReactor Q) :
    ShutDown o input deadline r (beginGracefulShutdown o input deadline r) := by
  unfold beginGracefulShutdown
  split
  · next hstate => exact .repeated hstate
  next hstate =>
    have hrunning := not_not.mp hstate
    simp only
    split
    · next after hdrained => exact .failed hrunning hdrained
    · next after hdrained =>
      split
      · next hempty => exact .finished hrunning hdrained (clients_eq_empty hempty)
      · next hclients =>
        apply ShutDown.begun hrunning hdrained
        intro hempty
        exact hclients (by rw [hempty]; rfl)

/-- `CheckShutdownProgress` concerns a draining reactor. It reads the clock while there are
connections. -/
inductive Checked (input : LoopInput Q) (r : SubReactor Q) : SubReactor Q → Prop where
  | serving (hstate : r.state ≠ .draining) : Checked input r r
  | drained (hstate : r.state = .draining) (hempty : r.clients = ∅) :
      Checked input r (r.publishState .stopped)
  | late (hstate : r.state = .draining) (hclients : r.clients ≠ ∅)
      (hlate : r.shutdownDeadline ≤ input.now) :
      Checked input r
        (({ r with readings := r.readings ++ [input.now] }.forceCloseAllConnections .deadline
          input.removeOk).publishState .stopped)
  | waiting (hstate : r.state = .draining) (hclients : r.clients ≠ ∅)
      (hearly : input.now < r.shutdownDeadline) :
      Checked input r { r with readings := r.readings ++ [input.now] }

theorem checkShutdownProgress_outcome (r : SubReactor Q) (input : LoopInput Q) :
    Checked input r (r.checkShutdownProgress input) := by
  unfold checkShutdownProgress
  split
  · next hstate => exact .serving hstate
  next hstate =>
    have hdraining := not_not.mp hstate
    split
    · next hempty => exact .drained hdraining (clients_eq_empty hempty)
    next hentries =>
      have hclients : r.clients ≠ ∅ := by
        intro hempty
        exact hentries (by rw [hempty]; rfl)
      simp only
      split
      · next hlate => exact .late hdraining hclients hlate
      · next hearly => exact .waiting hdraining hclients (Int.not_le.mp hearly)

/-! ### The invariant -/

/-- The invariant within an iteration. -/
structure Sound (r : SubReactor Q) : Prop where
  clean : ∀ fd conn, r.clients.lookup fd = some conn → conn.Clean
  stopped : r.state = .stopped → r.clients = ∅
  draining : r.state = .draining → r.stopRequested = true
  published : r.publishedState = r.state

/-- The invariant between iterations. -/
structure Tidy (r : SubReactor Q) : Prop extends Sound r where
  opened : ∀ fd conn, r.clients.lookup fd = some conn → conn.closed = false

theorem Sound.tidy_of_stopped {r : SubReactor Q} (h : r.Sound) (hstopped : r.state = .stopped) :
    r.Tidy where
  toSound := h
  opened fd conn hlook := by
    rw [h.stopped hstopped] at hlook
    cases hlook

theorem tidy_of_empty {r : SubReactor Q} (hempty : r.clients = ∅) :
    (r.publishState .stopped).Tidy := by
  have hnone : ∀ fd conn, (r.publishState .stopped).clients.lookup fd ≠ some conn := by
    intro fd conn hlook
    change r.clients.lookup fd = some conn at hlook
    rw [hempty] at hlook
    cases hlook
  exact ⟨⟨fun fd conn hlook => absurd hlook (hnone fd conn), fun _ => hempty, nofun, rfl⟩,
    fun fd conn hlook => absurd hlook (hnone fd conn)⟩

/-- The cleanup makes the invariant whole. -/
theorem Sound.cleanup {r : SubReactor Q} (h : r.Sound) (removeOk : Int → Bool) :
    (r.cleanupClosedConnections removeOk).Tidy := by
  have hkept : ∀ fd conn, (r.cleanupClosedConnections removeOk).clients.lookup fd = some conn →
      r.clients.lookup fd = some conn ∧ conn.closed = false := by
    intro fd conn hlook
    obtain ⟨hlook, hopen⟩ := KeyedMap.lookup_filterValues.mp hlook
    exact ⟨hlook, by simpa using hopen⟩
  refine ⟨⟨fun fd conn hlook => h.clean fd conn (hkept fd conn hlook).1, fun hstopped => ?_,
    h.draining, h.published⟩, fun fd conn hlook => (hkept fd conn hlook).2⟩
  apply KeyedMap.eq_empty_of_lookup_none
  intro fd
  apply Option.eq_none_iff_forall_ne_some.mpr
  intro conn hlook
  have hlook' := (hkept fd conn hlook).1
  rw [h.stopped hstopped] at hlook'
  cases hlook'

theorem Tidy.check {r : SubReactor Q} (h : r.Tidy) (input : LoopInput Q) :
    (r.checkShutdownProgress input).Tidy := by
  have houtcome := r.checkShutdownProgress_outcome input
  generalize r.checkShutdownProgress input = after at houtcome ⊢
  cases houtcome with
  | serving hstate => exact h
  | drained hstate hempty => exact tidy_of_empty hempty
  | late hstate hclients hlate => exact tidy_of_empty (forceCloseAllConnections_clients ..)
  | waiting hstate hclients hearly =>
      exact ⟨⟨h.clean, h.stopped, h.draining, h.published⟩, h.opened⟩

theorem tidy_fail (r : SubReactor Q) : r.fail.Tidy := tidy_of_empty rfl

/-- Connections that are changed one by one, each of them cleanly. -/
theorem Sound.rel {r : SubReactor Q} (h : r.Sound) (hstopped : r.state ≠ .stopped)
    {poller : Poller} {clients : KeyedMap Int Connection} {store : Store Q}
    (hrel : KeyedMap.Rel (fun a b => a.Clean → b.Clean) r.clients clients) :
    ({ r with poller, clients, store } : SubReactor Q).Sound where
  clean fd conn hlook := by
    obtain ⟨before, hbefore, hclean⟩ := hrel.of_right hlook
    exact hclean (h.clean fd before hbefore)
  stopped hstate := absurd hstate hstopped
  draining := h.draining
  published := h.published

theorem Sound.handleReady {r : SubReactor Q} (h : r.Sound) (hstopped : r.state ≠ .stopped)
    (o : NetworkOptions) (io : Nat → IoInput Q) (modityOk : Nat → Bool)
    (ready : List ReadyEvent) : (handleReady o io modityOk ready r).2.Sound := by
  obtain ⟨poller, clients, store, heq, hrel, -⟩ :=
    handleReady_rel (R := fun a b => a.Clean → b.Clean) (fun _ => id)
      (fun _ _ _ hab hbc hclean => hbc (hab hclean))
      (fun conn events input store modified hclean =>
        (Connection.delivers_register _ modified).clean
          (Connection.clean_handleEvent hclean r.state events input store))
      io modityOk ready r rfl
  rw [heq]
  exact h.rel hstopped hrel

theorem Sound.drainAll {r : SubReactor Q} (h : r.Sound) (hstop : r.stopRequested = true)
    (o : NetworkOptions) (input : LoopInput Q) (deadline : TimePoint) :
    (drainAll o input deadline r).2.Sound := by
  have hdraining : (r.drainUntil deadline).Sound := ⟨h.clean, nofun, fun _ => hstop, rfl⟩
  obtain ⟨poller, clients, heq, hrel⟩ :=
    drainAll_rel (R := fun a b => a.Clean → b.Clean) (fun _ => id)
      (fun _ _ _ hab hbc hclean => hbc (hab hclean))
      (fun conn modified hclean => ((Connection.delivers_beginDrain o conn).trans
        (Connection.delivers_register _ modified)).clean hclean)
      input deadline r
  rw [heq]
  exact hdraining.rel nofun hrel

theorem Sound.beginGracefulShutdown {r : SubReactor Q} (h : r.Sound)
    (hstop : r.stopRequested = true) (o : NetworkOptions) (input : LoopInput Q)
    (deadline : TimePoint) (hok : (beginGracefulShutdown o input deadline r).1 = true) :
    (beginGracefulShutdown o input deadline r).2.Sound := by
  have hdrain := h.drainAll hstop o input deadline
  have houtcome := beginGracefulShutdown_outcome o input deadline r
  generalize SubReactor.beginGracefulShutdown o input deadline r = result at houtcome hok ⊢
  cases houtcome with
  | repeated hstate => exact h
  | failed hstate hdrained => cases hok
  | finished hstate hdrained hempty => exact (tidy_of_empty hempty).toSound
  | begun hstate hdrained hclients =>
      rw [hdrained] at hdrain
      exact (hdrain.cleanup input.removeOk).toSound

theorem sound_addClientInLoop {r : SubReactor Q} (h : r.Sound) (hstopped : r.state ≠ .stopped)
    (fd : Int) (addOk : Bool) :
    (r.addClientInLoop fd addOk).Sound ∧ (r.addClientInLoop fd addOk).state = r.state := by
  have houtcome := r.addClientInLoop_outcome fd addOk
  generalize r.addClientInLoop fd addOk = after at houtcome ⊢
  cases houtcome with
  | refused => exact ⟨h, rfl⟩
  | registered hnew hadd =>
      have hclean := KeyedMap.forall_lookup_insert (P := fun _ conn => conn.Clean) (a := fd)
        (b := { fd, registeredEvents := Connection.desiredEvents { fd } }) (fun _ => rfl)
        fun fd' conn _ => h.clean fd' conn
      exact ⟨⟨hclean, fun hstate => absurd hstate hstopped, h.draining, h.published⟩, rfl⟩

theorem sound_addClients (fds : List Int) (addOk : Nat → Bool) {r : SubReactor Q} (h : r.Sound)
    (hstopped : r.state ≠ .stopped) : (addClients addOk fds r).Sound := by
  induction fds generalizing addOk r with
  | nil => exact h
  | cons fd rest ih =>
      obtain ⟨hadded, hstate⟩ := sound_addClientInLoop h hstopped fd (addOk 0)
      exact ih _ hadded (hstate ▸ hstopped)

theorem Sound.processControlRequests {r : SubReactor Q} (h : r.Sound)
    (hstopped : r.state ≠ .stopped) (o : NetworkOptions) (input : LoopInput Q)
    (hok : (processControlRequests o input r).1 = true) :
    (processControlRequests o input r).2.Sound := by
  have htaken : ({ r with pendingClients := [] } : SubReactor Q).Sound :=
    ⟨h.clean, h.stopped, h.draining, h.published⟩
  unfold SubReactor.processControlRequests at hok ⊢
  simp only at hok ⊢
  split
  · exact (tidy_of_empty (forceCloseAllConnections_clients ..)).toSound
  next hforce =>
    rw [if_neg hforce] at hok
    split
    · next hstop =>
      rw [if_pos hstop] at hok
      exact htaken.beginGracefulShutdown hstop o input _ hok
    · exact sound_addClients r.pendingClients input.addOk htaken hstopped

/-! ### What an iteration can do -/

/-- The reactor after the control requests: unchanged without a control event. -/
def AfterControl (o : NetworkOptions) (input : LoopInput Q) (ready : List ReadyEvent)
    (r mid : SubReactor Q) : Prop :=
  r.controlEventReceived ready = false ∧ mid = r ∨
    r.controlEventReceived ready = true ∧ input.drainOk = true ∧
      processControlRequests o input r = (true, mid)

/-- The outcomes of an iteration: an exception in one of its calls, the end of the loop by
a control request, or the handling of all ready events. -/
inductive Iterated (o : NetworkOptions) (input : LoopInput Q) (r : SubReactor Q) :
    Bool × SubReactor Q → Prop where
  | waitFailed (hready : input.ready = none) : Iterated o input r (false, r)
  | drainFailed {ready : List ReadyEvent} (hready : input.ready = some ready)
      (hcontrol : r.controlEventReceived ready = true) (hdrain : input.drainOk = false) :
      Iterated o input r (false, r)
  | controlFailed {ready : List ReadyEvent} {mid : SubReactor Q}
      (hready : input.ready = some ready) (hcontrol : r.controlEventReceived ready = true)
      (hdrain : input.drainOk = true)
      (hprocess : processControlRequests o input r = (false, mid)) :
      Iterated o input r (false, mid)
  | stopped {ready : List ReadyEvent} {mid : SubReactor Q} (hready : input.ready = some ready)
      (hmid : AfterControl o input ready r mid) (hstate : mid.state = .stopped) :
      Iterated o input r (true, mid)
  | eventFailed {ready : List ReadyEvent} {mid handled : SubReactor Q}
      (hready : input.ready = some ready) (hmid : AfterControl o input ready r mid)
      (hstate : mid.state ≠ .stopped)
      (hhandled : handleReady o input.io input.modityOk ready mid = (false, handled)) :
      Iterated o input r (false, handled)
  | handled {ready : List ReadyEvent} {mid handled : SubReactor Q}
      (hready : input.ready = some ready) (hmid : AfterControl o input ready r mid)
      (hstate : mid.state ≠ .stopped)
      (hhandled : handleReady o input.io input.modityOk ready mid = (true, handled)) :
      Iterated o input r
        (true, (handled.cleanupClosedConnections input.removeOk).checkShutdownProgress input)

theorem iterated_afterControl {o : NetworkOptions} {input : LoopInput Q}
    {ready : List ReadyEvent} {r mid : SubReactor Q} (hready : input.ready = some ready)
    (hmid : AfterControl o input ready r mid) :
    Iterated o input r
      (if mid.state = .stopped then
        (true, mid)
      else
        match handleReady o input.io input.modityOk ready mid with
        | (false, r) => (false, r)
        | (true, r) =>
            (true, (r.cleanupClosedConnections input.removeOk).checkShutdownProgress input)) := by
  split
  · next hstate => exact .stopped hready hmid hstate
  next hstate =>
    cases hhandled : handleReady o input.io input.modityOk ready mid with
    | mk ok handled =>
        cases ok with
        | false => exact .eventFailed hready hmid hstate hhandled
        | true => exact .handled hready hmid hstate hhandled

theorem iteration_outcome (o : NetworkOptions) (input : LoopInput Q) (r : SubReactor Q) :
    Iterated o input r (r.iteration o input) := by
  unfold iteration
  cases hready : input.ready with
  | none => exact .waitFailed hready
  | some ready =>
      simp only
      cases hcontrol : r.controlEventReceived ready with
      | false =>
          simp only [Bool.false_eq_true, if_false, Bool.not_true]
          exact iterated_afterControl hready (.inl ⟨hcontrol, rfl⟩)
      | true =>
          simp only [if_true]
          cases hdrain : input.drainOk with
          | false => exact .drainFailed hready hcontrol hdrain
          | true =>
              simp only [if_true]
              cases hprocess : processControlRequests o input r with
              | mk ok mid =>
                  cases ok with
                  | false => exact .controlFailed hready hcontrol hdrain hprocess
                  | true =>
                      simp only [Bool.not_true, Bool.false_eq_true, if_false]
                      exact iterated_afterControl hready (.inr ⟨hcontrol, hdrain, hprocess⟩)

theorem Sound.afterControl {r mid : SubReactor Q} (h : r.Sound) (hstopped : r.state ≠ .stopped)
    {o : NetworkOptions} {input : LoopInput Q} {ready : List ReadyEvent}
    (hmid : AfterControl o input ready r mid) : mid.Sound := by
  obtain ⟨-, rfl⟩ | ⟨-, -, hprocess⟩ := hmid
  · exact h
  · have hsound := h.processControlRequests hstopped o input (by rw [hprocess])
    rw [hprocess] at hsound
    exact hsound

theorem iterate_of_idle {r : SubReactor Q} (h : r.state = .created ∨ r.state = .stopped)
    (o : NetworkOptions) (input : LoopInput Q) : r.iterate o input = r := if_pos h

/-- One iteration keeps the invariant. -/
theorem Tidy.iterate {r : SubReactor Q} (h : r.Tidy) (o : NetworkOptions)
    (input : LoopInput Q) : (r.iterate o input).Tidy := by
  unfold SubReactor.iterate
  split
  · exact h
  next hlive =>
    have hstopped : r.state ≠ .stopped := fun hstate => hlive (.inr hstate)
    have houtcome := iteration_outcome o input r
    generalize r.iteration o input = result at houtcome ⊢
    cases houtcome with
    | waitFailed hready => exact tidy_fail _
    | drainFailed hready hcontrol hdrain => exact tidy_fail _
    | controlFailed hready hcontrol hdrain hprocess => exact tidy_fail _
    | stopped hready hmid hstate =>
        exact (h.toSound.afterControl hstopped hmid).tidy_of_stopped hstate
    | eventFailed hready hmid hstate hhandled => exact tidy_fail _
    | @handled ready mid handled hready hmid hstate hhandled =>
        have hsound := (h.toSound.afterControl hstopped hmid).handleReady hstate o input.io
          input.modityOk ready
        rw [hhandled] at hsound
        exact (hsound.cleanup input.removeOk).check input

/-- One step keeps the invariant. -/
theorem Tidy.step {r : SubReactor Q} (h : r.Tidy) (o : NetworkOptions) (action : Action Q) :
    (r.step o action).Tidy := by
  cases action with
  | start addOk threadOk =>
      have houtcome := r.start_outcome addOk threadOk
      change (r.start addOk threadOk).Tidy
      generalize r.start addOk threadOk = after at houtcome ⊢
      cases houtcome with
      | refused hcreated => exact h
      | unregistered hcreated poller =>
          exact ⟨⟨h.clean, h.stopped, h.draining, h.published⟩, h.opened⟩
      | running hcreated poller => exact ⟨⟨h.clean, nofun, nofun, rfl⟩, h.opened⟩
      | threadless hcreated poller => exact ⟨⟨h.clean, nofun, nofun, rfl⟩, h.opened⟩
  | enqueClient fd =>
      obtain ⟨fds, heq⟩ := r.enqueClient_eq fd
      rw [SubReactor.step, heq]
      exact ⟨⟨h.clean, h.stopped, h.draining, h.published⟩, h.opened⟩
  | stop deadline => exact ⟨⟨h.clean, h.stopped, fun _ => rfl, h.published⟩, h.opened⟩
  | forceStop => exact ⟨⟨h.clean, h.stopped, h.draining, h.published⟩, h.opened⟩
  | iterate input => exact h.iterate o input

theorem tidy_created (backend : PollerBackend) (controlFd : Int) (store : Store Q) :
    (created backend controlFd store).Tidy where
  clean fd conn hlook := by cases hlook
  stopped _ := rfl
  draining h := by cases h
  published := rfl
  opened fd conn hlook := by cases hlook

/-- Between the iterations of every run, every connection is open and has never been
closed, and a stopped reactor has none. -/
theorem tidy_run (o : NetworkOptions) (backend : PollerBackend) (controlFd : Int)
    (store : Store Q) (actions : List (Action Q)) :
    ((created backend controlFd store).run o actions).Tidy :=
  (machine o).run_invariant (I := Tidy) (fun _ h action _ => h.step o action)
    (tidy_created backend controlFd store)

end SubReactor

end TinyKv
