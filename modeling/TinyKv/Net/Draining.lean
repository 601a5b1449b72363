import TinyKv.Net.SubReactorClients

/-!
# Graceful shutdown

From the iteration that begins the shutdown on, a reactor reads nothing and adds no
client; it delivers what is pending. A connection leaves when everything has been sent,
after an error, or when it is forced to: after the deadline, after `ForceStop`, or by an
exception in the event loop.
-/

namespace TinyKv

open Foundation FrameCodec

variable {Q : ExpirationQueue}

namespace SubReactor

/-- How a connection has left a draining reactor: nothing was executed or queued, pending
bytes were sent in order, and there was a reason to close it. Only an exception in the
event loop destroys an open connection. -/
structure Departed (s : SubReactor Q) (before after : Connection) : Prop where
  executed : after.trace.executed = before.trace.executed
  queued : after.trace.queued = before.trace.queued
  sent : ∃ bytes, after.trace.sent = before.trace.sent ++ bytes ∧ bytes <+: before.pending
  late : .deadline ∈ after.trace.causes → ∃ now ∈ s.readings, s.shutdownDeadline ≤ now
  forced : .forceStop ∈ after.trace.causes → s.forceStopRequested = true
  reason : after.closed = true → after.trace.sent = before.trace.sent ++ before.pending ∨
    .errorEvent ∈ after.trace.causes ∨ .sendFailed ∈ after.trace.causes ∨
    .deadline ∈ after.trace.causes ∨ .forceStop ∈ after.trace.causes
  destroyed : after.closed = false → s.failed = true

/-- What has become of a connection since draining began: open, it has only delivered;
closed, it is as it will leave. -/
structure Fate (s : SubReactor Q) (before after : Connection) : Prop where
  opened : after.closed = false → Connection.Delivers before after
  closed : after.closed = true → s.Departed before after

/-- What the reasons for a departure depend on only grows. -/
structure Later (s s' : SubReactor Q) : Prop where
  readings : s.readings ⊆ s'.readings
  deadline : s'.shutdownDeadline = s.shutdownDeadline
  forced : s.forceStopRequested = true → s'.forceStopRequested = true
  failed : s.failed = true → s'.failed = true

theorem Departed.later {s s' : SubReactor Q} {before after : Connection}
    (h : s.Departed before after) (hlater : Later s s') : s'.Departed before after where
  executed := h.executed
  queued := h.queued
  sent := h.sent
  late hcause := by
    obtain ⟨now, hmem, hle⟩ := h.late hcause
    exact ⟨now, hlater.readings hmem, hlater.deadline ▸ hle⟩
  forced hcause := hlater.forced (h.forced hcause)
  reason := h.reason
  destroyed hopen := hlater.failed (h.destroyed hopen)

theorem Fate.later {s s' : SubReactor Q} {before after : Connection} (h : s.Fate before after)
    (hlater : Later s s') : s'.Fate before after :=
  ⟨h.opened, fun hclosed => (h.closed hclosed).later hlater⟩

/-! ### One connection -/

/-- Closing by a step that only delivers. -/
theorem departed_of_delivers {s : SubReactor Q} {before after : Connection}
    (hopen : before.closed = false) (hclean : before.trace.causes = [])
    (h : Connection.Delivers before after) (hclosed : after.closed = true) :
    s.Departed before after := by
  have hcauses : ∀ cause ∈ after.trace.causes, Connection.ofDelivery cause = true := by
    intro cause hcause
    apply (h.newCauses cause hcause).resolve_left
    rw [hclean]
    exact List.not_mem_nil
  obtain ⟨bytes, hsent, hprefix, -⟩ := h.delivered
  refine ⟨h.executed, h.queued, ⟨bytes, hsent, hprefix⟩, fun hcause => ?_, fun hcause => ?_,
    fun _ => ?_, fun hstill => ?_⟩
  · cases hcauses _ hcause
  · cases hcauses _ hcause
  · obtain hall | herror | hsend := (h.closing hopen hclosed).2
    · exact .inl hall
    · exact .inr (.inl herror)
    · exact .inr (.inr (.inl hsend))
  · rw [hclosed] at hstill
    cases hstill

/-- Nothing more happens to a closed connection, its causes apart. -/
theorem Departed.delivers {s : SubReactor Q} {before mid after : Connection}
    (h : s.Departed before mid) (hclosed : mid.closed = true)
    (hmid : Connection.Delivers mid after) : s.Departed before after := by
  obtain ⟨bytes, hsent, -, -, hnothing, -⟩ := hmid.delivered
  rw [hnothing hclosed, List.append_nil] at hsent
  refine ⟨hmid.executed.trans h.executed, hmid.queued.trans h.queued, hsent ▸ h.sent,
    fun hcause => ?_, fun hcause => ?_, fun _ => ?_, fun hopen => ?_⟩
  · exact h.late ((hmid.newCauses _ hcause).resolve_right (by decide))
  · exact h.forced ((hmid.newCauses _ hcause).resolve_right (by decide))
  · have hgrow : ∀ {cause}, cause ∈ mid.trace.causes → cause ∈ after.trace.causes :=
      fun hcause => hmid.causes.subset hcause
    rw [hsent]
    exact (h.reason hclosed).imp id (Or.imp hgrow (Or.imp hgrow (Or.imp hgrow hgrow)))
  · rw [(hmid.opened hopen).1] at hclosed
    cases hclosed

theorem Fate.delivers {s : SubReactor Q} {before mid after : Connection}
    (hopen : before.closed = false) (hclean : before.trace.causes = [])
    (h : s.Fate before mid) (hmid : Connection.Delivers mid after) : s.Fate before after where
  opened hafter := (h.opened (hmid.opened hafter).1).trans hmid
  closed hafter := by
    cases hclosed : mid.closed with
    | false => exact departed_of_delivers hopen hclean ((h.opened hclosed).trans hmid) hafter
    | true => exact (h.closed hclosed).delivers hclosed hmid

/-- What has been sent of the pending bytes, whether the connection is still open or not. -/
theorem Fate.sent {s : SubReactor Q} {before after : Connection} (h : s.Fate before after) :
    after.trace.executed = before.trace.executed ∧ after.trace.queued = before.trace.queued ∧
      ∃ bytes, after.trace.sent = before.trace.sent ++ bytes ∧ bytes <+: before.pending := by
  cases hclosed : after.closed with
  | false =>
      have hdelivers := h.opened hclosed
      obtain ⟨bytes, hsent, hprefix, -⟩ := hdelivers.delivered
      exact ⟨hdelivers.executed, hdelivers.queued, bytes, hsent, hprefix⟩
  | true => exact ⟨(h.closed hclosed).executed, (h.closed hclosed).queued, (h.closed hclosed).sent⟩

/-- The causes of a connection since draining began. -/
theorem Fate.causes {s : SubReactor Q} {before after : Connection}
    (hclean : before.trace.causes = []) (h : s.Fate before after) :
    (.deadline ∈ after.trace.causes → ∃ now ∈ s.readings, s.shutdownDeadline ≤ now) ∧
      (.forceStop ∈ after.trace.causes → s.forceStopRequested = true) := by
  cases hclosed : after.closed with
  | false =>
      rw [(h.opened hclosed).kept hclosed, hclean]
      exact ⟨nofun, nofun⟩
  | true => exact ⟨(h.closed hclosed).late, (h.closed hclosed).forced⟩

/-- The reason of a forced close. -/
def Justified (s : SubReactor Q) : ForcedClose → Prop
  | .deadline => ∃ now ∈ s.readings, s.shutdownDeadline ≤ now
  | .forceStop => s.forceStopRequested = true

theorem Fate.forceClose {s : SubReactor Q} {before after : Connection}
    (hclean : before.trace.causes = []) (h : s.Fate before after) {reason : ForcedClose}
    (hjustified : s.Justified reason) : s.Departed before (after.markClosed reason.cause) := by
  obtain ⟨hexecuted, hqueued, hsent⟩ := h.sent
  obtain ⟨hlate, hforced⟩ := h.causes hclean
  refine ⟨hexecuted, hqueued, hsent, fun hcause => ?_, fun hcause => ?_, fun _ => ?_, nofun⟩
  · obtain hcause | hcause := List.mem_append.mp hcause
    · exact hlate hcause
    · cases reason with
      | deadline => exact hjustified
      | forceStop => cases List.mem_singleton.mp hcause
  · obtain hcause | hcause := List.mem_append.mp hcause
    · exact hforced hcause
    · cases reason with
      | deadline => cases List.mem_singleton.mp hcause
      | forceStop => exact hjustified
  · cases reason with
    | deadline => simp [Connection.markClosed, ForcedClose.cause]
    | forceStop => simp [Connection.markClosed, ForcedClose.cause]

/-- An exception in the event loop destroys the connections as they are. -/
theorem Fate.fail {s : SubReactor Q} {before after : Connection}
    (hclean : before.trace.causes = []) (h : s.Fate before after) (hfailed : s.failed = true) :
    s.Departed before after := by
  obtain ⟨hexecuted, hqueued, hsent⟩ := h.sent
  obtain ⟨hlate, hforced⟩ := h.causes hclean
  exact ⟨hexecuted, hqueued, hsent, hlate, hforced,
    fun hclosed => (h.closed hclosed).reason hclosed, fun _ => hfailed⟩

/-! ### The reactor -/

/-- A reactor `s` that has been draining since it was `r`. -/
structure Draining (r s : SubReactor Q) : Prop where
  store : s.store = r.store
  state : s.state = .draining ∨ s.state = .stopped
  published : s.publishedState = s.state
  stopRequested : s.stopRequested = true
  deadline : s.shutdownDeadline = r.requestedShutdownDeadline
  clients : ∀ fd conn, s.clients.lookup fd = some conn →
    ∃ before, r.clients.lookup fd = some before ∧ s.Fate before conn
  fate : ∀ fd before, r.clients.lookup fd = some before →
    (∃ conn, s.clients.lookup fd = some conn ∧ s.Fate before conn) ∨
      ∃ conn ∈ s.departed, s.Departed before conn

section Steps

variable {r s : SubReactor Q} (hr : r.Tidy)
include hr

theorem Tidy.causes {fd : Int} {conn : Connection} (hlook : r.clients.lookup fd = some conn) :
    conn.trace.causes = [] :=
  hr.clean fd conn hlook (hr.opened fd conn hlook)

/-- The connections deliver. -/
theorem Draining.rel (h : Draining r s) {poller : Poller} {clients : KeyedMap Int Connection}
    (hrel : KeyedMap.Rel Connection.Delivers s.clients clients) :
    Draining r { s with poller, clients } where
  store := h.store
  state := h.state
  published := h.published
  stopRequested := h.stopRequested
  deadline := h.deadline
  clients fd conn hlook := by
    obtain ⟨mid, hmid, hdelivers⟩ := hrel.of_right hlook
    obtain ⟨before, hbefore, hfate⟩ := h.clients fd mid hmid
    exact ⟨before, hbefore,
      (hfate.delivers (hr.opened fd before hbefore) (hr.causes hbefore) hdelivers).later
        ⟨fun _ => id, rfl, id, id⟩⟩
  fate fd before hbefore := by
    obtain ⟨mid, hmid, hfate⟩ | ⟨conn, hmem, hdeparted⟩ := h.fate fd before hbefore
    · obtain ⟨conn, hlook, hdelivers⟩ := hrel.of_left hmid
      exact .inl ⟨conn, hlook,
        (hfate.delivers (hr.opened fd before hbefore) (hr.causes hbefore) hdelivers).later
          ⟨fun _ => id, rfl, id, id⟩⟩
    · exact .inr ⟨conn, hmem, hdeparted.later ⟨fun _ => id, rfl, id, id⟩⟩

omit hr in
/-- Closed connections leave. -/
theorem Draining.cleanup (h : Draining r s) (removeOk : Int → Bool) :
    Draining r (s.cleanupClosedConnections removeOk) where
  store := h.store
  state := h.state
  published := h.published
  stopRequested := h.stopRequested
  deadline := h.deadline
  clients fd conn hlook := by
    obtain ⟨hlook, -⟩ := KeyedMap.lookup_filterValues.mp hlook
    obtain ⟨before, hbefore, hfate⟩ := h.clients fd conn hlook
    exact ⟨before, hbefore, hfate.later ⟨fun _ => id, rfl, id, id⟩⟩
  fate fd before hbefore := by
    obtain ⟨conn, hlook, hfate⟩ | ⟨conn, hmem, hdeparted⟩ := h.fate fd before hbefore
    · cases hclosed : conn.closed with
      | false =>
          refine .inl ⟨conn, KeyedMap.lookup_filterValues.mpr ⟨hlook, by simp [hclosed]⟩,
            hfate.later ⟨fun _ => id, rfl, id, id⟩⟩
      | true =>
          refine .inr ⟨conn, List.mem_append_right _ ?_,
            (hfate.closed hclosed).later ⟨fun _ => id, rfl, id, id⟩⟩
          exact List.mem_map.mpr ⟨⟨fd, conn⟩,
            List.mem_filter.mpr ⟨KeyedMap.mem_entries_iff_lookup.mpr hlook, hclosed⟩, rfl⟩
    · exact .inr ⟨conn, List.mem_append_left _ hmem, hdeparted.later ⟨fun _ => id, rfl, id, id⟩⟩

theorem Draining.forceClose (h : Draining r s) {reason : ForcedClose}
    (hjustified : s.Justified reason) (removeOk : Int → Bool) :
    Draining r (s.forceCloseAllConnections reason removeOk) := by
  apply Draining.cleanup
  refine ⟨h.store, h.state, h.published, h.stopRequested, h.deadline, fun fd conn hlook => ?_,
    fun fd before hbefore => ?_⟩
  · obtain ⟨mid, hmid, rfl⟩ := KeyedMap.lookup_mapValues.mp hlook
    obtain ⟨before, hbefore, hfate⟩ := h.clients fd mid hmid
    have hclosed := hfate.forceClose (hr.causes hbefore) hjustified
    exact ⟨before, hbefore, nofun, fun _ => hclosed.later ⟨fun _ => id, rfl, id, id⟩⟩
  · obtain ⟨mid, hmid, hfate⟩ | ⟨conn, hmem, hdeparted⟩ := h.fate fd before hbefore
    · have hclosed := hfate.forceClose (hr.causes hbefore) hjustified
      exact .inl ⟨_, KeyedMap.lookup_mapValues.mpr ⟨mid, hmid, rfl⟩, nofun,
        fun _ => hclosed.later ⟨fun _ => id, rfl, id, id⟩⟩
    · exact .inr ⟨conn, hmem, hdeparted.later ⟨fun _ => id, rfl, id, id⟩⟩

omit hr in
/-- Steps that leave the connections alone. -/
theorem Draining.control (h : Draining r s) {s' : SubReactor Q} (hlater : Later s s')
    (hstore : s'.store = s.store) (hclients : s'.clients = s.clients)
    (hdeparted : s'.departed = s.departed) (hstop : s'.stopRequested = true)
    (hstate : s'.state = .draining ∨ s'.state = .stopped)
    (hpublished : s'.publishedState = s'.state) : Draining r s' where
  store := hstore.trans h.store
  state := hstate
  published := hpublished
  stopRequested := hstop
  deadline := hlater.deadline.trans h.deadline
  clients fd conn hlook := by
    obtain ⟨before, hbefore, hfate⟩ := h.clients fd conn (hclients ▸ hlook)
    exact ⟨before, hbefore, hfate.later hlater⟩
  fate fd before hbefore := by
    rw [hclients, hdeparted]
    obtain ⟨conn, hlook, hfate⟩ | ⟨conn, hmem, hreason⟩ := h.fate fd before hbefore
    · exact .inl ⟨conn, hlook, hfate.later hlater⟩
    · exact .inr ⟨conn, hmem, hreason.later hlater⟩

omit hr in
theorem Draining.publishStopped (h : Draining r s) : Draining r (s.publishState .stopped) :=
  h.control ⟨fun _ => id, rfl, id, id⟩ rfl rfl rfl h.stopRequested (.inr rfl) rfl

theorem Draining.check (h : Draining r s) (input : LoopInput Q) :
    Draining r (s.checkShutdownProgress input) := by
  have hread : Draining r { s with readings := s.readings ++ [input.now] } :=
    h.control ⟨fun _ => List.mem_append_left _, rfl, id, id⟩ rfl rfl rfl h.stopRequested h.state
      h.published
  have houtcome := s.checkShutdownProgress_outcome input
  generalize s.checkShutdownProgress input = after at houtcome ⊢
  cases houtcome with
  | serving hstate => exact h
  | drained hstate hempty => exact h.publishStopped
  | late hstate hclients hlate =>
      apply Draining.publishStopped
      apply hread.forceClose hr
      exact ⟨input.now, List.mem_append_right _ (List.mem_singleton.mpr rfl), hlate⟩
  | waiting hstate hclients hearly => exact hread

theorem Draining.handleReady (h : Draining r s) (o : NetworkOptions) (io : Nat → IoInput Q)
    (modityOk : Nat → Bool) (ready : List ReadyEvent) :
    Draining r (handleReady o io modityOk ready s).2 := by
  have hstate : s.state ≠ .running := by
    intro hrunning
    obtain hs | hs := h.state
    · rw [hs] at hrunning
      cases hrunning
    · rw [hs] at hrunning
      cases hrunning
  obtain ⟨poller, clients, store, heq, hrel, hstore⟩ :=
    handleReady_rel (R := Connection.Delivers) Connection.Delivers.refl
      (fun _ _ _ hab hbc => hab.trans hbc)
      (fun conn events input store modified =>
        (Connection.delivers_handleEvent o hstate events input store conn).1.trans
          (Connection.delivers_register _ modified))
      io modityOk ready s rfl
  rw [heq, hstore hstate]
  exact h.rel hr hrel

theorem Draining.fail (h : Draining r s) : Draining r s.fail := by
  have hlater : Later s s.fail := ⟨fun _ => id, rfl, id, fun _ => rfl⟩
  refine ⟨h.store, .inr rfl, rfl, h.stopRequested, h.deadline,
    fun fd conn hlook => (by cases hlook), fun fd before hbefore => ?_⟩
  right
  obtain ⟨conn, hlook, hfate⟩ | ⟨conn, hmem, hdeparted⟩ := h.fate fd before hbefore
  · refine ⟨conn, List.mem_append_right _ ?_, (hfate.later hlater).fail (hr.causes hbefore) rfl⟩
    exact List.mem_map.mpr ⟨⟨fd, conn⟩, KeyedMap.mem_entries_iff_lookup.mpr hlook, rfl⟩
  · exact ⟨conn, List.mem_append_left _ hmem, hdeparted.later hlater⟩

/-- While a reactor drains, control requests can only force it to stop. -/
theorem Draining.processControlRequests (h : Draining r s) (hstate : s.state = .draining)
    (o : NetworkOptions) (input : LoopInput Q) :
    Draining r (processControlRequests o input s).2 := by
  have htaken : Draining r { s with pendingClients := [] } :=
    h.control ⟨fun _ => id, rfl, id, id⟩ rfl rfl rfl h.stopRequested h.state h.published
  unfold SubReactor.processControlRequests
  simp only
  split
  · next hforce =>
    have hjustified : Justified { s with pendingClients := [] } .forceStop := hforce
    exact (htaken.forceClose hr hjustified input.removeOk).publishStopped
  · rw [if_pos h.stopRequested, beginGracefulShutdown, if_pos]
    · exact htaken
    · rw [hstate]
      nofun

/-- The iteration `input` begins the graceful shutdown of `r`. -/
structure BeginsDraining (r : SubReactor Q) (input : LoopInput Q) : Prop where
  running : r.state = .running
  requested : r.stopRequested = true
  unforced : r.forceStopRequested = false
  drained : input.drainOk = true
  received : ∃ ready, input.ready = some ready ∧ r.controlEventReceived ready = true

/-- A reactor that begins to drain. -/
theorem draining_drainUntil (hstop : r.stopRequested = true) :
    Draining r (drainUntil { r with pendingClients := [] } r.requestedShutdownDeadline) := by
  generalize hbegin : drainUntil { r with pendingClients := [] } r.requestedShutdownDeadline = s
  have hfate : ∀ fd conn, r.clients.lookup fd = some conn → s.Fate conn conn := by
    intro fd conn hlook
    refine ⟨fun _ => .refl conn, fun hclosed => ?_⟩
    rw [hr.opened fd conn hlook] at hclosed
    cases hclosed
  rw [← hbegin] at hfate ⊢
  exact ⟨rfl, .inl rfl, rfl, hstop, rfl,
    fun fd conn hlook => ⟨conn, hlook, hfate fd conn hlook⟩,
    fun fd conn hlook => .inl ⟨conn, hlook, hfate fd conn hlook⟩⟩

/-- The loop over its connections only delivers. -/
theorem draining_drainAll (hstop : r.stopRequested = true) (o : NetworkOptions)
    (input : LoopInput Q) :
    Draining r
      (drainAll o input r.requestedShutdownDeadline { r with pendingClients := [] }).2 := by
  have hdraining := draining_drainUntil hr hstop
  obtain ⟨poller, clients, heq, hrel⟩ :=
    drainAll_rel (R := Connection.Delivers) Connection.Delivers.refl
      (fun _ _ _ hab hbc => hab.trans hbc)
      (fun conn modified => (Connection.delivers_beginDrain o conn).trans
        (Connection.delivers_register _ modified))
      input r.requestedShutdownDeadline { r with pendingClients := [] }
  rw [heq]
  exact hdraining.rel hr hrel

/-- Processing the request to stop begins the draining. -/
theorem BeginsDraining.processControlRequests {input : LoopInput Q} (h : r.BeginsDraining input)
    (o : NetworkOptions) : Draining r (processControlRequests o input r).2 := by
  have hdrain := draining_drainAll hr h.requested o input
  unfold SubReactor.processControlRequests
  simp only
  rw [if_neg (by rw [h.unforced]; exact Bool.false_ne_true), if_pos h.requested]
  have houtcome := beginGracefulShutdown_outcome o input r.requestedShutdownDeadline
    { r with pendingClients := [] }
  generalize beginGracefulShutdown o input _ _ = result at houtcome ⊢
  cases houtcome with
  | repeated hstate => exact absurd h.running hstate
  | failed hstate hdrained =>
      rw [hdrained] at hdrain
      exact hdrain
  | finished hstate hdrained hempty =>
      rw [hdrained] at hdrain
      exact (hdrain.cleanup input.removeOk).publishStopped
  | begun hstate hdrained hclients =>
      rw [hdrained] at hdrain
      exact hdrain.cleanup input.removeOk

omit hr in
theorem iterate_of_live (hlive : ¬(s.state = .created ∨ s.state = .stopped))
    (o : NetworkOptions) (input : LoopInput Q) :
    s.iterate o input =
      if (s.iteration o input).1 then (s.iteration o input).2
      else (s.iteration o input).2.fail := by
  unfold SubReactor.iterate
  rw [if_neg hlive]
  generalize s.iteration o input = result
  obtain ⟨ok, after⟩ := result
  cases ok with
  | false => rfl
  | true => rfl

/-- What follows the control requests in an iteration keeps the reactor draining. -/
theorem draining_of_outcome {o : NetworkOptions} {input : LoopInput Q}
    {result : Bool × SubReactor Q} (houtcome : Iterated o input s result)
    (hcontrol : Draining r (processControlRequests o input s).2)
    (hbefore : Draining r s ∨ input.drainOk = true ∧
      ∃ ready, input.ready = some ready ∧ s.controlEventReceived ready = true) :
    Draining r (if result.1 then result.2 else result.2.fail) := by
  have hmid : ∀ {ready mid}, input.ready = some ready → AfterControl o input ready s mid →
      Draining r mid := by
    rintro ready mid hready (⟨hnone, rfl⟩ | ⟨-, -, hprocess⟩)
    · obtain hbefore | ⟨-, ready', hready', hsome⟩ := hbefore
      · exact hbefore
      · rw [hready] at hready'
        cases hready'
        rw [hnone] at hsome
        cases hsome
    · rw [hprocess] at hcontrol
      exact hcontrol
  cases houtcome with
  | waitFailed hready =>
      obtain hbefore | ⟨-, ready, hready', -⟩ := hbefore
      · exact hbefore.fail hr
      · rw [hready] at hready'
        cases hready'
  | drainFailed hready hreceived hdrain =>
      obtain hbefore | ⟨hdrain', -⟩ := hbefore
      · exact hbefore.fail hr
      · rw [hdrain] at hdrain'
        cases hdrain'
  | controlFailed hready hreceived hdrain hprocess =>
      rw [hprocess] at hcontrol
      exact hcontrol.fail hr
  | stopped hready hafter hstate => exact hmid hready hafter
  | @eventFailed ready mid handled hready hafter hstate hhandled =>
      have hdraining := (hmid hready hafter).handleReady hr o input.io input.modityOk ready
      rw [hhandled] at hdraining
      exact hdraining.fail hr
  | @handled ready mid handled hready hafter hstate hhandled =>
      have hdraining := (hmid hready hafter).handleReady hr o input.io input.modityOk ready
      rw [hhandled] at hdraining
      exact (hdraining.cleanup input.removeOk).check hr input

theorem BeginsDraining.iterate {input : LoopInput Q} (h : r.BeginsDraining input)
    (o : NetworkOptions) : Draining r (r.iterate o input) := by
  rw [iterate_of_live (by simp [h.running])]
  exact draining_of_outcome hr (iteration_outcome o input r) (h.processControlRequests hr o)
    (.inr ⟨h.drained, h.received⟩)

theorem Draining.iterate (h : Draining r s) (o : NetworkOptions) (input : LoopInput Q) :
    Draining r (s.iterate o input) := by
  by_cases hlive : s.state = .created ∨ s.state = .stopped
  · unfold SubReactor.iterate
    rw [if_pos hlive]
    exact h
  · rw [iterate_of_live hlive]
    have hstate : s.state = .draining :=
      h.state.resolve_right fun hstopped => hlive (.inr hstopped)
    exact draining_of_outcome hr (iteration_outcome o input s)
      (h.processControlRequests hr hstate o input) (.inl h)

/-- Every step of a draining reactor keeps it draining. -/
theorem Draining.step (h : Draining r s) (o : NetworkOptions) (action : Action Q) :
    Draining r (s.step o action) := by
  cases action with
  | start addOk threadOk =>
      have hstarted : s.publishedState ≠ .created := by
        rw [h.published]
        obtain hstate | hstate := h.state
        · rw [hstate]
          nofun
        · rw [hstate]
          nofun
      change Draining r (s.start addOk threadOk)
      rw [start_of_started hstarted]
      exact h
  | enqueClient fd =>
      obtain ⟨fds, heq⟩ := s.enqueClient_eq fd
      rw [SubReactor.step, heq]
      exact h.control ⟨fun _ => id, rfl, id, id⟩ rfl rfl rfl h.stopRequested h.state h.published
  | stop deadline =>
      exact h.control ⟨fun _ => id, rfl, id, id⟩ rfl rfl rfl rfl h.state h.published
  | forceStop =>
      exact h.control ⟨fun _ => id, rfl, fun _ => rfl, id⟩ rfl rfl rfl h.stopRequested h.state
        h.published
  | iterate input => exact h.iterate hr o input

end Steps

/-- Draining delivers what was queued and starts nothing new: from the iteration that
begins the shutdown on, the connections are those of its beginning, nothing is executed or
queued, and what is sent was pending. A connection that is gone has departed for one of
the reasons. A reactor that publishes `Stopped` has no connection left. -/
theorem draining_delivers (o : NetworkOptions) (backend : PollerBackend) (controlFd : Int)
    (store : Store Q) (actions : List (Action Q)) (input : LoopInput Q)
    (more : List (Action Q)) :
    let r := (created backend controlFd store).run o actions
    let s := (r.iterate o input).run o more
    r.BeginsDraining input →
      s.store = r.store ∧ s.shutdownDeadline = r.requestedShutdownDeadline ∧
      (∀ fd conn, s.clients.lookup fd = some conn →
        ∃ before, r.clients.lookup fd = some before ∧
          conn.trace.executed = before.trace.executed ∧
          conn.trace.queued = before.trace.queued ∧
          ∃ bytes, conn.trace.sent = before.trace.sent ++ bytes ∧
            before.pending = bytes ++ conn.pending) ∧
      (∀ fd before, r.clients.lookup fd = some before →
        before.closed = false ∧ before.trace.causes = [] ∧
        ((∃ conn, s.clients.lookup fd = some conn) ∨
          ∃ conn ∈ s.departed, s.Departed before conn)) ∧
      (s.publishedState = .stopped → s.clients = ∅) := by
  intro r s hbegins
  have hr : r.Tidy := tidy_run o backend controlFd store actions
  have hs : s.Tidy := by
    apply (machine o).run_invariant (I := Tidy) (fun _ h action _ => h.step o action)
    exact hr.iterate o input
  have hdraining : Draining r s :=
    (machine o).run_invariant (I := Draining r) (fun _ h action _ => h.step hr o action)
      (hbegins.iterate hr o)
  refine ⟨hdraining.store, hdraining.deadline, fun fd conn hlook => ?_,
    fun fd before hbefore => ⟨hr.opened fd before hbefore, hr.causes hbefore, ?_⟩,
    fun hstopped => hs.stopped (hs.published ▸ hstopped)⟩
  · obtain ⟨before, hbefore, hfate⟩ := hdraining.clients fd conn hlook
    have hopen := hs.opened fd conn hlook
    have hdelivers := hfate.opened hopen
    obtain ⟨bytes, hsent, -, hpending, -⟩ := hdelivers.delivered
    exact ⟨before, hbefore, hdelivers.executed, hdelivers.queued, bytes, hsent, hpending hopen⟩
  · obtain ⟨conn, hlook, -⟩ | hdeparted := hdraining.fate fd before hbefore
    · exact .inl ⟨conn, hlook⟩
    · exact .inr hdeparted

/-- The response to a PING is pending when the stop is requested. -/
def stopAfterPing : List (Action sortedExpirations) :=
  [.start true true, .enqueClient 7, .iterate (readPing [⟨3, { read := true }⟩]),
    .iterate (readPing [⟨7, { read := true }⟩]), .stop 100]

/-- A second PING is ready together with the wakeup channel; the response to the first
one is sent later. -/
theorem draining_delivers_ping :
    let r := (created .epoll 3 Store.empty).run {} stopAfterPing
    let s := (r.iterate {} (readPing [⟨7, { read := true }⟩, ⟨3, { read := true }⟩])).run {}
      [.iterate (calmly [⟨7, { write := true }⟩] .wouldBlock (.accepted 64) 2)]
    (r.clients.lookup 7).map (·.pending) = some (frameOf (ascii "+PONG")) ∧
      s.departed.map (·.trace.sent) = [frameOf (ascii "+PONG")] ∧
      ∀ before, r.clients.lookup 7 = some before →
        ∃ conn ∈ s.departed, s.Departed before conn := by
  intro r s
  have hbegins : r.BeginsDraining (readPing [⟨7, { read := true }⟩, ⟨3, { read := true }⟩]) :=
    ⟨by decide, by decide, by decide, rfl, _, rfl, by decide⟩
  obtain ⟨-, -, -, hfate, hstopped⟩ := draining_delivers {} .epoll 3 Store.empty stopAfterPing _
    [.iterate (calmly [⟨7, { write := true }⟩] .wouldBlock (.accepted 64) 2)] hbegins
  have hempty : s.clients = ∅ := hstopped (by decide)
  refine ⟨by decide, by decide, fun before hbefore => ?_⟩
  obtain ⟨conn, hlook⟩ | hdeparted := (hfate 7 before hbefore).2.2
  · change s.clients.lookup 7 = some conn at hlook
    rw [hempty] at hlook
    cases hlook
  · exact hdeparted

end SubReactor

end TinyKv
