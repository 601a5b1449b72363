import TinyKv.Net.ReactorInvariants
import TinyKv.Net.TcpServer

/-!
# The connections of a server live sessions

A sub reactor handles the ready events of all its clients in one loop, and their commands
change one store. Each of its connections lives a session of its own all the same: what the
other connections do to the store belongs to the environment of the session. What holds of
all sessions therefore holds of every connection that a running server has or has had.
-/

namespace TinyKv

open Foundation

variable {Q : ExpirationQueue}

/-! ### The other connections as an environment -/

/-- The environment of an event that finds a given store before the first payload. -/
def IoInput.seeing (input : IoInput Q) (store : Store Q) : IoInput Q where
  recv := input.recv
  send := input.send
  ambient
    | 0 => { input.ambient 0 with interfere := fun _ => (input.ambient 0).interfere store }
    | i + 1 => input.ambient (i + 1)

namespace Connection

theorem processPayloads_seeing (o : NetworkOptions) (input : IoInput Q) (store store' : Store Q)
    (conn : Connection) (payloads : List Bytes) :
    (conn.processPayloads o (input.seeing store).ambient store' payloads).1 =
      (conn.processPayloads o input.ambient store payloads).1 := by
  cases payloads with
  | nil => rfl
  | cons payload rest => rfl

theorem receiveBytes_seeing (o : NetworkOptions) (input : IoInput Q) (store store' : Store Q)
    (conn : Connection) (bytes : Bytes) :
    (conn.receiveBytes o (input.seeing store).ambient store' bytes).1 =
      (conn.receiveBytes o input.ambient store bytes).1 := by
  cases hrejected : (FrameCodec.frameParser.drain (conn.readBuffer ++ bytes)).rejected with
  | true => rw [receiveBytes_rejected hrejected, receiveBytes_rejected hrejected]
  | false =>
      rw [receiveBytes_accepted hrejected, receiveBytes_accepted hrejected]
      exact processPayloads_seeing o input store store' _ _

theorem handleClientRead_seeing (o : NetworkOptions) (input : IoInput Q)
    (store store' : Store Q) (conn : Connection) :
    (conn.handleClientRead o (input.seeing store) store').1 =
      (conn.handleClientRead o input store).1 := by
  unfold handleClientRead
  split
  · rfl
  split
  · rfl
  simp only [IoInput.seeing]
  cases input.recv.result with
  | bytes ready =>
      simp only
      split
      · rfl
      · exact receiveBytes_seeing o input store store' conn _
  | wouldBlock => rfl
  | failed => rfl

/-- What becomes of a connection does not depend on who has changed the store before. -/
theorem handleEvent_seeing (o : NetworkOptions) (state : ServerState) (events : IoEvent)
    (input : IoInput Q) (store store' : Store Q) (conn : Connection) :
    (conn.handleEvent o state events (input.seeing store) store').1 =
      (conn.handleEvent o state events input store).1 := by
  rw [handleEvent_cases, handleEvent_cases]
  split
  · rfl
  split
  · simp only [handleClientRead_seeing]
    rfl
  · rfl

/-- A connection on a descriptor at some point of a session, with the state of the reactor
there. -/
def Lives (Q : ExpirationQueue) (o : NetworkOptions) (fd : Int) (phase : ServerState)
    (conn : Connection) : Prop :=
  ∃ (store : Store Q) (events : List (SessionEvent Q)),
    ((Session.start fd store).run o events).phase = phase ∧
      ((Session.start fd store).run o events).conn = conn

variable {o : NetworkOptions} {fd : Int} {phase : ServerState} {conn : Connection}

theorem lives_accepted (store : Store Q) (o : NetworkOptions) (fd : Int) :
    Lives Q o fd .running (accepted fd) :=
  ⟨store, [], rfl, rfl⟩

/-- A session goes on with any event. -/
theorem Lives.step (h : Lives Q o fd phase conn) (event : Store Q → SessionEvent Q) :
    ∃ store, Lives Q o fd (Session.step o ⟨phase, store, conn⟩ (event store)).phase
      (Session.step o ⟨phase, store, conn⟩ (event store)).conn := by
  obtain ⟨store, events, rfl, rfl⟩ := h
  refine ⟨((Session.start fd store).run o events).store, store,
    events ++ [event ((Session.start fd store).run o events).store], ?_, ?_⟩
  · simp only [Session.run, Machine.run_append]
    rfl
  · simp only [Session.run, Machine.run_append]
    rfl

theorem Lives.ready (h : Lives Q o fd phase conn) (hphase : phase ≠ .stopped)
    (events : IoEvent) (input : IoInput Q) (store : Store Q) (modityOk : Bool) :
    Lives Q o fd
      (if (Connection.register (conn.handleEvent o phase events input store).1 modityOk).1
        then phase else .stopped)
      (Connection.register (conn.handleEvent o phase events input store).1 modityOk).2 := by
  obtain ⟨before, hnext⟩ := h.step fun _ => .ready events (input.seeing store) modityOk
  simpa only [Session.step, if_neg hphase, handleEvent_seeing, Session.refreshed] using hnext

theorem Lives.beginDrain (h : Lives Q o fd .running conn) (modityOk : Bool) :
    Lives Q o fd
      (if (Connection.register (conn.beginDrain o) modityOk).1 then .draining else .stopped)
      (Connection.register (conn.beginDrain o) modityOk).2 := by
  obtain ⟨before, hnext⟩ := h.step fun _ => .beginDrain modityOk
  exact hnext

theorem Lives.forceClose (h : Lives Q o fd phase conn) (hphase : phase ≠ .stopped)
    (reason : ForcedClose) : Lives Q o fd .stopped (conn.markClosed reason.cause) := by
  obtain ⟨before, hnext⟩ := h.step fun _ => .forceClose reason
  simpa only [Session.step, if_neg hphase] using hnext

end Connection

namespace SubReactor

/-! ### The connections of one sub reactor -/

/-- Every connection has lived a session, the departed ones included. -/
structure Lived (o : NetworkOptions) (r : SubReactor Q) : Prop where
  clients : ∀ fd conn, r.clients.lookup fd = some conn →
    ∃ phase, Connection.Lives Q o fd phase conn
  departed : ∀ conn ∈ r.departed, ∃ fd phase, Connection.Lives Q o fd phase conn

/-- Every connection lives a session, each client in its phase. -/
structure LivingIn (o : NetworkOptions) (phase : Int → ServerState) (r : SubReactor Q) :
    Prop where
  clients : ∀ fd conn, r.clients.lookup fd = some conn → Connection.Lives Q o fd (phase fd) conn
  departed : ∀ conn ∈ r.departed, ∃ fd phase, Connection.Lives Q o fd phase conn

/-- Every connection lives a session, the clients in the state of the reactor. -/
def Living (o : NetworkOptions) (r : SubReactor Q) : Prop := LivingIn o (fun _ => r.state) r

variable {o : NetworkOptions} {phase : Int → ServerState} {r : SubReactor Q}

theorem LivingIn.lived (h : LivingIn o phase r) : Lived o r :=
  ⟨fun fd conn hlook => ⟨phase fd, h.clients fd conn hlook⟩, h.departed⟩

/-- The connections that leave the table leave it with what they have lived. -/
theorem Lived.leave (h : Lived o r) {conn : Connection}
    {entries : List (Sigma fun _ : Int => Connection)} (hentries : entries ⊆ r.clients.entries)
    (hmem : conn ∈ r.departed ++ entries.map Sigma.snd) :
    ∃ fd phase, Connection.Lives Q o fd phase conn := by
  obtain hmem | hmem := List.mem_append.mp hmem
  · exact h.departed conn hmem
  · obtain ⟨⟨fd, conn⟩, hentry, rfl⟩ := List.mem_map.mp hmem
    exact ⟨fd, h.clients fd conn (KeyedMap.mem_entries_iff_lookup.mp (hentries hentry))⟩

theorem Lived.fail (h : Lived o r) : Living o r.fail where
  clients fd conn hlook := by cases hlook
  departed _ hmem := h.leave (List.Subset.refl _) hmem

theorem LivingIn.cleanup (h : LivingIn o phase r) (removeOk : Int → Bool) :
    LivingIn o phase (r.cleanupClosedConnections removeOk) where
  clients fd conn hlook := h.clients fd conn (KeyedMap.lookup_filterValues.mp hlook).1
  departed _ hmem := h.lived.leave (List.filter_subset_self _) hmem

/-- In a reactor without clients the phases do not matter. -/
theorem living_of_empty (hempty : r.clients = ∅)
    (hdeparted : ∀ conn ∈ r.departed, ∃ fd phase, Connection.Lives Q o fd phase conn)
    (state : ServerState) : Living o (r.publishState state) := by
  refine ⟨fun fd conn hlook => ?_, hdeparted⟩
  change r.clients.lookup fd = some conn at hlook
  rw [hempty] at hlook
  cases hlook

/-- All connections are closed by force and leave. -/
theorem Living.forceClose (h : Living o r) (hstopped : r.state ≠ .stopped)
    (reason : ForcedClose) (removeOk : Int → Bool) :
    Living o ((r.forceCloseAllConnections reason removeOk).publishState .stopped) := by
  have hclosed : Lived o { r with
      calls := r.calls ++ [.addForcedShutdownConnections (KeyedMap.size r.clients)]
      clients := KeyedMap.mapValues (·.markClosed reason.cause) r.clients } := by
    refine ⟨fun fd conn hlook => ?_, h.departed⟩
    obtain ⟨before, hbefore, rfl⟩ := KeyedMap.lookup_mapValues.mp hlook
    exact ⟨.stopped, (h.clients fd before hbefore).forceClose hstopped reason⟩
  apply living_of_empty (r.forceCloseAllConnections_clients reason removeOk)
  exact fun conn hmem => hclosed.leave (List.filter_subset_self _) hmem

/-- The connection of a descriptor is registered after a handler: the session goes on, or it
stops with the exception of the poller. -/
theorem LivingIn.registerInterest (h : LivingIn o phase r) (fd : Int) (next : ServerState)
    {refreshed : Connection × Option IoEvent}
    (hnext : ∀ modified, Connection.Lives Q o fd
      (if (Connection.register refreshed modified).1 then next else .stopped)
      (Connection.register refreshed modified).2) (modityOk : Bool) :
    Settled (fun after => LivingIn o (Function.update phase fd next) after ∧
        after.state = r.state) (Lived o)
      (r.registerInterest fd refreshed modityOk) := by
  have hothers : ∀ {conn'}, Connection.Lives Q o fd next conn' → ∀ fd' conn,
      (r.clients.insert fd conn').lookup fd' = some conn →
        Connection.Lives Q o fd' (Function.update phase fd next fd') conn := by
    intro conn' hlives
    apply KeyedMap.forall_lookup_insert
    · rw [Function.update_self]
      exact hlives
    · intro fd' conn hne hlook
      rw [Function.update_of_ne hne]
      exact h.clients fd' conn hlook
  have hmodified : ∀ modified poller, Settled
      (fun after : SubReactor Q => LivingIn o (Function.update phase fd next) after ∧
        after.state = r.state) (Lived o)
      ((Connection.register refreshed modified).1, { r with
        poller
        clients := r.clients.insert fd (Connection.register refreshed modified).2 }) := by
    intro modified poller
    have hlives := hnext modified
    generalize Connection.register refreshed modified = registered at hlives ⊢
    obtain ⟨ok, conn'⟩ := registered
    cases ok with
    | true => exact ⟨⟨hothers hlives, h.departed⟩, rfl⟩
    | false =>
        exact ⟨KeyedMap.forall_lookup_insert ⟨.stopped, hlives⟩
          fun fd' conn _ => h.lived.clients fd' conn, h.departed⟩
  unfold SubReactor.registerInterest
  cases refreshed.2 with
  | none => exact hmodified true r.poller
  | some desired =>
      simp only
      cases r.poller.modity refreshed.1.fd desired modityOk with
      | error e => exact hmodified false r.poller
      | ok poller => exact hmodified true poller

/-- The loop over the ready events; by induction on them. -/
theorem Living.handleReady (h : Living o r) (hstopped : r.state ≠ .stopped)
    (io : Nat → IoInput Q) (modityOk : Nat → Bool) (ready : List ReadyEvent) :
    Settled (Living o) (Lived o) (handleReady o io modityOk ready r) := by
  induction ready generalizing io modityOk r with
  | nil => exact h
  | cons event rest ih =>
      unfold SubReactor.handleReady
      split
      · exact ih h hstopped _ _
      cases hlook : r.clients.lookup event.fd with
      | none => exact ih h hstopped _ _
      | some conn =>
          have hready := (h.clients event.fd conn hlook).ready hstopped event.events (io 0)
            r.store
          have hstore : LivingIn o (fun _ => r.state) { r with
              store := (conn.handleEvent o r.state event.events (io 0) r.store).2 } :=
            ⟨h.clients, h.departed⟩
          have hsettled := hstore.registerInterest event.fd r.state hready (modityOk 0)
          rw [Function.update_eq_self] at hsettled
          simp only
          generalize SubReactor.registerInterest _ event.fd _ (modityOk 0) = result
            at hsettled ⊢
          obtain ⟨ok, after⟩ := result
          cases ok with
          | false => exact hsettled
          | true =>
              obtain ⟨hafter, hstate⟩ := hsettled
              apply ih _ (hstate ▸ hstopped)
              rw [Living, hstate]
              exact hafter

/-- The loop of `BeginGracefulShutdown`; by induction on the descriptors, those to come in
the state `Running` still. -/
theorem LivingIn.drainClients (modityOk : Int → Bool) (fds : List Int) (hnodup : fds.Nodup)
    (hdraining : r.state = .draining)
    (h : LivingIn o (fun fd => if fd ∈ fds then .running else .draining) r) :
    Settled (Living o) (Lived o) (drainClients o modityOk fds r) := by
  induction fds generalizing r with
  | nil =>
      change Living o r
      rw [Living, hdraining]
      simpa using h
  | cons fd rest ih =>
      obtain ⟨hfd, hrest⟩ := List.nodup_cons.mp hnodup
      unfold SubReactor.drainClients
      cases hlook : r.clients.lookup fd with
      | none =>
          apply ih hrest hdraining
          refine ⟨fun fd' conn hlook' => ?_, h.departed⟩
          have hne : fd' ≠ fd := by
            rintro rfl
            rw [hlook] at hlook'
            cases hlook'
          simpa [hne] using h.clients fd' conn hlook'
      | some conn =>
          have hrunning : Connection.Lives Q o fd .running conn := by
            simpa using h.clients fd conn hlook
          have hsettled := h.registerInterest fd .draining (fun m => hrunning.beginDrain m)
            (modityOk fd)
          simp only
          generalize r.registerInterest fd (conn.beginDrain o) (modityOk fd) = result
            at hsettled ⊢
          obtain ⟨ok, after⟩ := result
          cases ok with
          | false => exact hsettled
          | true =>
              obtain ⟨hafter, hstate⟩ := hsettled
              apply ih hrest (hstate.trans hdraining)
              refine ⟨fun fd' conn' hlook' => ?_, hafter.departed⟩
              have hlives := hafter.clients fd' conn' hlook'
              by_cases heq : fd' = fd
              · subst heq
                simpa [hfd] using hlives
              · simpa [heq] using hlives

theorem Living.beginGracefulShutdown (h : Living o r) (input : LoopInput Q)
    (deadline : TimePoint) :
    Settled (Living o) (Lived o) (beginGracefulShutdown o input deadline r) := by
  have hloop (hrunning : r.state = .running) :
      Settled (Living o) (Lived o) (drainAll o input deadline r) := by
    apply LivingIn.drainClients input.drainModityOk r.clients.keys r.clients.nodupKeys rfl
    refine ⟨fun fd conn hlook => ?_, h.departed⟩
    have hmem : fd ∈ r.clients.keys := KeyedMap.mem_iff_exists_lookup.mpr ⟨conn, hlook⟩
    rw [if_pos hmem, ← hrunning]
    exact h.clients fd conn hlook
  have houtcome := beginGracefulShutdown_outcome o input deadline r
  generalize SubReactor.beginGracefulShutdown o input deadline r = result at houtcome ⊢
  cases houtcome with
  | repeated hstate => exact h
  | failed hstate hdrained =>
      have hsettled := hloop hstate
      rw [hdrained] at hsettled
      exact hsettled
  | finished hstate hdrained hempty =>
      have hsettled := hloop hstate
      rw [hdrained] at hsettled
      exact living_of_empty hempty (LivingIn.cleanup hsettled input.removeOk).departed .stopped
  | begun hstate hdrained hclients =>
      have hsettled := hloop hstate
      rw [hdrained] at hsettled
      exact LivingIn.cleanup hsettled input.removeOk

/-- New clients begin their sessions in a running reactor. -/
theorem Living.addClients (h : Living o r) (hrunning : r.state = .running)
    (addOk : Nat → Bool) (fds : List Int) : Living o (addClients addOk fds r) := by
  induction fds generalizing addOk r with
  | nil => exact h
  | cons fd rest ih =>
      have houtcome := r.addClientInLoop_outcome fd (addOk 0)
      unfold SubReactor.addClients
      generalize r.addClientInLoop fd (addOk 0) = after at houtcome ⊢
      cases houtcome with
      | refused => exact ih h hrunning _
      | @registered addOk poller hnew hadd =>
          have hadded : Living o { r with
              poller
              clients := r.clients.insert fd
                { fd, registeredEvents := Connection.desiredEvents { fd } }
              calls := r.calls ++ [.onConnectionAccepted] } := by
            refine ⟨KeyedMap.forall_lookup_insert ?_ fun fd' conn _ => h.clients fd' conn,
              h.departed⟩
            change Connection.Lives Q o fd r.state _
            rw [hrunning]
            exact Connection.lives_accepted r.store o fd
          exact ih hadded hrunning _

theorem Living.processControlRequests (h : Living o r) (hsound : r.Sound)
    (hlive : ¬(r.state = .created ∨ r.state = .stopped)) (input : LoopInput Q) :
    Settled (Living o) (Lived o) (processControlRequests o input r) := by
  have htaken : Living o { r with pendingClients := [] } := ⟨h.clients, h.departed⟩
  unfold SubReactor.processControlRequests
  simp only
  split
  · exact htaken.forceClose (fun hstate => hlive (.inr hstate)) .forceStop input.removeOk
  split
  · exact htaken.beginGracefulShutdown input _
  next hstop =>
    have hrunning : r.state = .running := by
      cases hstate : r.state with
      | created => exact absurd (.inl hstate) hlive
      | running => rfl
      | draining => exact absurd (hsound.draining hstate) hstop
      | stopped => exact absurd (.inr hstate) hlive
    exact htaken.addClients hrunning input.addOk r.pendingClients

theorem Living.checkShutdownProgress (h : Living o r) (input : LoopInput Q) :
    Living o (r.checkShutdownProgress input) := by
  have houtcome := r.checkShutdownProgress_outcome input
  generalize r.checkShutdownProgress input = after at houtcome ⊢
  cases houtcome with
  | serving hstate => exact h
  | drained hstate hempty => exact living_of_empty hempty h.departed .stopped
  | late hstate hclients hlate =>
      have hread : Living o { r with readings := r.readings ++ [input.now] } :=
        ⟨h.clients, h.departed⟩
      exact hread.forceClose (by simp [hstate]) .deadline input.removeOk
  | waiting hstate hclients hearly => exact ⟨h.clients, h.departed⟩

theorem Living.iterate (h : Living o r) (hsound : r.Sound) (input : LoopInput Q) :
    Living o (r.iterate o input) := by
  unfold SubReactor.iterate
  split
  · exact h
  next hlive =>
    have hprocess := h.processControlRequests hsound hlive input
    have hcontrol {ready : List ReadyEvent} {mid : SubReactor Q}
        (hmid : AfterControl o input ready r mid) : Living o mid := by
      obtain ⟨-, rfl⟩ | ⟨-, -, heq⟩ := hmid
      · exact h
      · rw [heq] at hprocess
        exact hprocess
    have houtcome := iteration_outcome o input r
    generalize r.iteration o input = result at houtcome ⊢
    cases houtcome with
    | waitFailed hready => exact h.lived.fail
    | drainFailed hready hcontrol hdrain => exact h.lived.fail
    | controlFailed hready hcontrol hdrain hmid =>
        rw [hmid] at hprocess
        exact Lived.fail hprocess
    | stopped hready hmid hstate => exact hcontrol hmid
    | @eventFailed ready mid handled hready hmid hstate hhandled =>
        have hsettled := (hcontrol hmid).handleReady hstate input.io input.modityOk ready
        rw [hhandled] at hsettled
        exact Lived.fail hsettled
    | @handled ready mid handled hready hmid hstate hhandled =>
        have hsettled := (hcontrol hmid).handleReady hstate input.io input.modityOk ready
        rw [hhandled] at hsettled
        have hcleaned : Living o (handled.cleanupClosedConnections input.removeOk) :=
          LivingIn.cleanup hsettled input.removeOk
        exact hcleaned.checkShutdownProgress input

/-- One step keeps the sessions going. -/
theorem Living.step (h : Living o r) (htidy : r.Tidy) (hidle : r.Idle) (action : Action Q) :
    Living o (r.step o action) := by
  cases action with
  | start addOk threadOk =>
      have hempty (hcreated : r.publishedState = .created) : r.clients = ∅ :=
        hidle (htidy.published ▸ hcreated)
      have houtcome := r.start_outcome addOk threadOk
      change Living o (r.start addOk threadOk)
      generalize r.start addOk threadOk = after at houtcome ⊢
      cases houtcome with
      | refused hcreated => exact h
      | unregistered hcreated poller => exact ⟨h.clients, h.departed⟩
      | running hcreated poller =>
          exact living_of_empty (r := { r with poller }) (hempty hcreated) h.departed .running
      | threadless hcreated poller =>
          exact living_of_empty (r := { r with poller }) (hempty hcreated) h.departed .created
  | enqueClient fd =>
      obtain ⟨fds, heq⟩ := r.enqueClient_eq fd
      rw [SubReactor.step, heq]
      exact ⟨h.clients, h.departed⟩
  | stop deadline => exact ⟨h.clients, h.departed⟩
  | forceStop => exact ⟨h.clients, h.departed⟩
  | iterate input => exact h.iterate htidy.toSound input

/-- The connections a sub reactor has and has had. -/
def connections (r : SubReactor Q) : List Connection :=
  r.clients.entries.map Sigma.snd ++ r.departed

theorem Living.connections (h : Living o r) {conn : Connection} (hmem : conn ∈ r.connections) :
    ∃ fd phase, Connection.Lives Q o fd phase conn := by
  obtain hmem | hmem := List.mem_append.mp hmem
  · obtain ⟨⟨fd, conn⟩, hentry, rfl⟩ := List.mem_map.mp hmem
    exact ⟨fd, _, h.clients fd conn (KeyedMap.mem_entries_iff_lookup.mp hentry)⟩
  · exact h.departed conn hmem

end SubReactor

namespace TcpServer

/-- The connections of all sub reactors. -/
def connections (s : TcpServer Q) : List Connection := s.subReactors.flatMap (·.connections)

theorem living_run (c : ServerSetup) (store : Store Q) (actions : List (TcpServer.Action Q)) :
    ∀ r ∈ ((created c store).run c actions).subReactors,
      SubReactor.Living c.networkOptions r := by
  have hall : ∀ r ∈ ((created c store).run c actions).subReactors,
      r.Tidy ∧ r.Idle ∧ SubReactor.Living c.networkOptions r := by
    apply subReactors_run (I := fun r => r.Tidy ∧ r.Idle ∧ SubReactor.Living c.networkOptions r) c
    · rintro r ⟨htidy, hidle, h⟩ action
      exact ⟨htidy.step _ action, hidle.step htidy _ action, h.step htidy hidle action⟩
    · intro controlFd
      refine ⟨SubReactor.tidy_created _ controlFd store, fun _ => rfl, ?_, ?_⟩
      · exact fun fd conn hlook => by cases hlook
      · exact fun conn hmem => by cases hmem
  exact fun r hmem => (hall r hmem).2.2

/-- What holds of all sessions holds of all connections of a server. -/
theorem connections_run (c : ServerSetup) {P : Connection → Prop}
    (h : ∀ (fd : Int) (store : Store Q) (events : List (SessionEvent Q)),
      P ((Session.start fd store).run c.networkOptions events).conn)
    (store : Store Q) (actions : List (TcpServer.Action Q)) :
    ∀ conn ∈ ((created c store).run c actions).connections, P conn := by
  intro conn hmem
  obtain ⟨r, hr, hmem⟩ := List.mem_flatMap.mp hmem
  obtain ⟨fd, phase, before, events, -, rfl⟩ := (living_run c store actions r hr).connections hmem
  exact h fd before events

end TcpServer

/-- In every run of a server, every connection of every sub reactor lives a session: each
client one in which the reactor is in the state it is in, and each connection that has left
one that ended with it. -/
theorem TcpServer.connections_live (c : ServerSetup) (store : Store Q)
    (actions : List (TcpServer.Action Q)) :
    let reactors := ((TcpServer.created c store).run c actions).subReactors
    (∀ r ∈ reactors, ∀ fd conn, r.clients.lookup fd = some conn →
      ∃ (store : Store Q) (events : List (SessionEvent Q)),
        ((Session.start fd store).run c.networkOptions events).phase = r.state ∧
          ((Session.start fd store).run c.networkOptions events).conn = conn) ∧
    ∀ r ∈ reactors, ∀ conn ∈ r.departed,
      ∃ (fd : Int) (store : Store Q) (events : List (SessionEvent Q)),
        ((Session.start fd store).run c.networkOptions events).conn = conn := by
  intro reactors
  have hliving := TcpServer.living_run c store actions
  constructor
  · intro r hmem fd conn hlook
    exact (hliving r hmem).clients fd conn hlook
  · intro r hmem conn hdeparted
    obtain ⟨fd, phase, store, events, -, hconn⟩ := (hliving r hmem).departed conn hdeparted
    exact ⟨fd, store, events, hconn⟩

end TinyKv
