import TinyKv.Net.ResponseStream
import TinyKv.Net.Segmentation

/-!
# After the final response

`closeAfterWrite` is set once the last response of a connection has been queued: after QUIT, after
an error response, at a Hangup and when the reactor drains. From then on the connection only sends
what is pending, and closes when it has.
-/

namespace TinyKv

open Foundation FrameCodec

variable {Q : ExpirationQueue}

namespace Connection

/-- A closed connection has nothing pending, and one that is to close after the write has. -/
structure Flushing (conn : Connection) : Prop where
  closed : conn.closed = true → conn.pending = []
  busy : conn.closed = false → conn.closeAfterWrite = true → conn.pending ≠ []

theorem flushing_accepted (fd : Int) : (accepted fd).Flushing where
  closed _ := rfl
  busy _ hclose := by cases hclose

theorem flushing_markClosed (conn : Connection) (cause : CloseCause) :
    (conn.markClosed cause).Flushing where
  closed _ := rfl
  busy hopen := by cases hopen

/-- The other members do not matter. -/
theorem Flushing.same {a b : Connection} (h : a.Flushing) (hclosed : b.closed = a.closed)
    (hclose : b.closeAfterWrite = a.closeAfterWrite) (hpending : b.pending = a.pending) :
    b.Flushing where
  closed := by
    rw [hclosed, hpending]
    exact h.closed
  busy := by
    rw [hclosed, hclose, hpending]
    exact h.busy

theorem flushing_of_serving {conn : Connection} (h : conn.Serving) : conn.Flushing where
  closed hclosed := by
    rw [h.1] at hclosed
    cases hclosed
  busy _ hclose := by
    rw [h.2] at hclose
    cases hclose

theorem flushing_of_pending {conn : Connection} (hopen : conn.closed = false)
    (h : conn.pending ≠ []) : conn.Flushing where
  closed hclosed := by
    rw [hopen] at hclosed
    cases hclosed
  busy _ _ := h

theorem Flushing.updateReadBackPressure {conn : Connection} (h : conn.Flushing)
    (o : NetworkOptions) : (conn.updateReadBackPressure o).Flushing := by
  obtain ⟨paused, calls, heq, -⟩ := updateReadBackPressure_eq o conn
  rw [heq]
  exact h.same rfl rfl rfl

theorem Flushing.handleClientWrite {conn : Connection} (h : conn.Flushing) (o : NetworkOptions)
    (input : IoInput Q) : (conn.handleClientWrite o input).Flushing := by
  unfold Connection.handleClientWrite
  split
  · exact h
  next hopen =>
    rw [Bool.not_eq_true] at hopen
    split
    · simp only
      split
      · exact flushing_markClosed ..
      · exact h.updateReadBackPressure o
    simp only
    cases input.send.result with
    | accepted bytes =>
        simp only
        split
        · unfold sendBytes
          simp only
          split
          · exact flushing_markClosed ..
          next hdone =>
            rw [Bool.and_eq_true, not_and, OutputBuffer.isEmpty_iff] at hdone
            constructor
            · simp [hopen]
            · intro _ hclose hnil
              exact hdone hnil hclose
        · exact flushing_markClosed ..
    | wouldBlock => exact h
    | failed => exact flushing_markClosed ..

theorem flushing_hangUp {conn : Connection} (hopen : conn.closed = false) :
    conn.hangUp.Flushing := by
  unfold hangUp
  simp only
  split
  · exact flushing_markClosed ..
  next hpending =>
    rw [OutputBuffer.isEmpty_iff] at hpending
    exact flushing_of_pending hopen hpending

theorem Flushing.refreshInterest {conn : Connection} (h : conn.Flushing) (o : NetworkOptions) :
    (conn.refreshInterest o).1.Flushing := by
  unfold Connection.refreshInterest
  split
  · exact h
  simp only
  split
  · exact flushing_markClosed ..
  split
  · exact flushing_markClosed ..
  split
  · exact h.updateReadBackPressure o
  · exact h.updateReadBackPressure o

theorem Flushing.beginDrain {conn : Connection} (h : conn.Flushing) (o : NetworkOptions) :
    (conn.beginDrain o).1.Flushing := by
  unfold Connection.beginDrain
  simp only
  split
  · exact flushing_markClosed ..
  next hpending =>
    rw [OutputBuffer.isEmpty_iff] at hpending
    have hopen : conn.closed = false := by
      by_contra hclosed
      exact hpending (h.closed (Bool.not_eq_false _ ▸ hclosed))
    apply Flushing.refreshInterest
    exact flushing_of_pending hopen hpending

theorem Flushing.afterRead {conn : Connection} (h : conn.Flushing) (o : NetworkOptions)
    (events : IoEvent) (input : IoInput Q) : (conn.afterRead o events input).1.Flushing := by
  have hwrite : Flushing (if !conn.closed && events.write then
      conn.handleClientWrite o input else conn) :=
    iteInduction (fun _ => h.handleClientWrite o input) fun _ => h
  unfold Connection.afterRead
  generalize (if !conn.closed && events.write then conn.handleClientWrite o input
    else conn) = written at hwrite
  have hhang : Flushing (if !written.closed && events.hangup then written.hangUp
      else written) := by
    split
    · next hhangup =>
      simp only [Bool.and_eq_true, Bool.not_eq_eq_eq_not, Bool.not_true] at hhangup
      exact flushing_hangUp hhangup.1
    · exact hwrite
  simp only
  generalize (if !written.closed && events.hangup then written.hangUp else written) = hung
    at hhang
  split
  · exact hhang.refreshInterest o
  · exact hhang

/-! ### Reading -/

theorem flushing_withResponse {conn : Connection} (hopen : conn.closed = false)
    (response : Bytes) (paused : Bool) (calls : List MetricCall) (final : Bool) :
    Flushing { conn.withResponse response paused calls with closeAfterWrite := final } := by
  apply flushing_of_pending
  · exact hopen
  · simp [pending, withResponse, frameOf, htonl]

theorem flushing_finalResponse {conn : Connection} (hopen : conn.closed = false)
    (o : NetworkOptions) (response : Bytes) : (conn.finalResponse o response).Flushing := by
  rcases finalResponse_cases o conn response with
    ⟨cause, calls, -, -, heq⟩ | ⟨paused, calls, -, -, heq⟩
  · rw [heq]
    exact flushing_markClosed ..
  · rw [heq]
    exact flushing_withResponse hopen response paused calls true

theorem flushing_processPayload {conn : Connection} (hopen : conn.closed = false)
    (o : NetworkOptions) (ambient : Ambient Q) (store : Store Q) (payload : Bytes) :
    (conn.processPayload o ambient store payload).2.1.Flushing := by
  rcases processPayload_cases o ambient store conn payload with
    ⟨cause, calls, -, -, heq⟩ | ⟨paused, before, calls, -, -, -, -, heq⟩
  · rw [heq]
    exact flushing_markClosed ..
  · rw [heq]
    apply flushing_withResponse
    exact hopen

theorem flushing_processPayloads (o : NetworkOptions) (payloads : List Bytes)
    (ambient : Nat → Ambient Q) (store : Store Q) {conn : Connection}
    (hopen : conn.closed = false) (h : conn.Flushing) :
    (conn.processPayloads o ambient store payloads).1.Flushing := by
  induction payloads generalizing ambient store conn with
  | nil => exact h
  | cons payload rest ih =>
      have hnext := flushing_processPayload hopen o (ambient 0) store payload
      have hcontinues : (conn.processPayload o (ambient 0) store payload).1 = true →
          (conn.processPayload o (ambient 0) store payload).2.1.closed = false := by
        rcases processPayload_cases o (ambient 0) store conn payload with
          ⟨cause, calls, -, -, heq⟩ | ⟨paused, before, calls, -, -, -, -, heq⟩
        · rw [heq]
          nofun
        · rw [heq]
          exact fun _ => hopen
      unfold processPayloads
      generalize conn.processPayload o (ambient 0) store payload = result at hnext hcontinues ⊢
      obtain ⟨continues, mid, store'⟩ := result
      cases continues with
      | false => exact hnext
      | true => exact ih _ _ (hcontinues rfl) hnext

theorem flushing_receiveBytes {conn : Connection} (hserving : conn.Serving) (o : NetworkOptions)
    (ambient : Nat → Ambient Q) (store : Store Q) (bytes : Bytes) :
    (conn.receiveBytes o ambient store bytes).1.Flushing := by
  have hinput (call : MetricCall) : (conn.withInput bytes call).Serving := hserving
  cases hrejected : (frameParser.drain (conn.readBuffer ++ bytes)).rejected with
  | true =>
      rw [receiveBytes_rejected hrejected]
      exact flushing_finalResponse (hinput _).1 o _
  | false =>
      rw [receiveBytes_accepted hrejected]
      exact flushing_processPayloads o _ ambient store (hinput _).1
        (flushing_of_serving (hinput _))

theorem flushing_rejectOversizedReadBuffer {conn : Connection} (hopen : conn.closed = false)
    (o : NetworkOptions) : (conn.rejectOversizedReadBuffer o).Flushing := by
  have hfinal := flushing_finalResponse hopen o (ascii "-ERR request buffer too large")
  rw [rejectOversizedReadBuffer_eq]
  unfold finalResponse at hfinal
  split
  · next hqueued =>
    rw [if_pos hqueued] at hfinal
    exact hfinal
  · exact flushing_markClosed ..

theorem Flushing.handleClientRead {conn : Connection} (h : conn.Flushing) (o : NetworkOptions)
    (input : IoInput Q) (store : Store Q) :
    (conn.handleClientRead o input store).1.Flushing := by
  by_cases hreading : conn.Reading
  swap
  · rw [handleClientRead_refused hreading]
    exact h
  have houtcome := handleClientRead_outcome hreading o input store
  generalize conn.handleClientRead o input store = result at houtcome ⊢
  cases houtcome with
  | oversized hfull => exact flushing_rejectOversizedReadBuffer hreading.opened o
  | ended hroom hrecv hnil =>
      rw [receiveEnd_eq]
      exact flushing_markClosed ..
  | bytes hroom hrecv hnil =>
      exact flushing_receiveBytes ⟨hreading.opened, hreading.serving⟩ o input.ambient store _
  | wouldBlock hrecv => exact h
  | failed hrecv => exact flushing_markClosed ..

theorem Flushing.handleEvent {conn : Connection} (h : conn.Flushing) (o : NetworkOptions)
    (state : ServerState) (events : IoEvent) (input : IoInput Q) (store : Store Q) :
    (conn.handleEvent o state events input store).1.1.Flushing := by
  rw [handleEvent_cases]
  split
  · exact flushing_markClosed ..
  split
  · exact (h.handleClientRead o input store).afterRead o events input
  · exact h.afterRead o events input

/-! ### What is left to do -/

/-- The metric calls about paused and resumed reads. -/
def pauses (conn : Connection) : List MetricCall :=
  conn.calls.filter fun call => call == .onReadPaused || call == .onReadResumed

/-- The causes that cut the pending output short. -/
def interrupting : CloseCause → Bool
  | .errorEvent | .sendFailed | .deadline | .forceStop => true
  | _ => false

/-- Nothing follows: no execution, no further response, no pausing; the pending output is sent as
it is, and the connection is closed exactly when nothing is pending, which is when everything has
been sent, or after an interruption. -/
structure Concludes (before after : Connection) : Prop where
  stopped : ¬ after.Serving
  executed : after.trace.executed = before.trace.executed
  queued : after.trace.queued = before.trace.queued
  pauses : after.pauses = before.pauses
  sent : ∃ bytes, after.trace.sent = before.trace.sent ++ bytes ∧ bytes <+: before.pending ∧
    (after.closed = false → before.pending = bytes ++ after.pending)
  opened : after.closed = false → before.closed = false
  causes : before.trace.causes <+: after.trace.causes
  closed : after.closed = true ↔ after.pending = []
  flushed : after.closed = true → after.trace.sent = before.trace.sent ++ before.pending ∨
    ∃ cause ∈ after.trace.causes, interrupting cause = true

theorem Flushing.closed_iff {conn : Connection} (h : conn.Flushing) (hstopped : ¬ conn.Serving) :
    conn.closed = true ↔ conn.pending = [] := by
  constructor
  · exact h.closed
  · intro hnil
    by_contra hopen
    rw [Bool.not_eq_true] at hopen
    have hclose : conn.closeAfterWrite = true := by
      by_contra hserving
      exact hstopped ⟨hopen, Bool.not_eq_true _ ▸ hserving⟩
    exact h.busy hopen hclose hnil

theorem Concludes.refl {conn : Connection} (h : conn.Flushing) (hstopped : ¬ conn.Serving) :
    Concludes conn conn where
  stopped := hstopped
  executed := rfl
  queued := rfl
  pauses := rfl
  sent := ⟨[], by simp, List.nil_prefix, fun _ => rfl⟩
  opened := id
  causes := List.prefix_rfl
  closed := h.closed_iff hstopped
  flushed hclosed := by
    left
    rw [h.closed hclosed, List.append_nil]

theorem Concludes.trans {a b c : Connection} (hab : Concludes a b) (hbc : Concludes b c) :
    Concludes a c where
  stopped := hbc.stopped
  executed := hbc.executed.trans hab.executed
  queued := hbc.queued.trans hab.queued
  pauses := hbc.pauses.trans hab.pauses
  sent := by
    obtain ⟨first, hfirst, hprefix, hopen⟩ := hab.sent
    obtain ⟨second, hsecond, hprefix', hopen'⟩ := hbc.sent
    cases hb : b.closed with
    | true =>
        have hnil : second = [] := by
          rw [hab.closed.mp hb] at hprefix'
          exact List.prefix_nil.mp hprefix'
        refine ⟨first, by rw [hsecond, hnil, List.append_nil, hfirst], hprefix, fun hc => ?_⟩
        rw [hbc.opened hc] at hb
        cases hb
    | false =>
        refine ⟨first ++ second, by rw [hsecond, hfirst, List.append_assoc], ?_, fun hc => ?_⟩
        · rw [hopen hb]
          exact (List.prefix_append_right_inj first).mpr hprefix'
        · rw [hopen hb, hopen' hc, List.append_assoc]
  opened hc := hab.opened (hbc.opened hc)
  causes := hab.causes.trans hbc.causes
  closed := hbc.closed
  flushed hc := by
    obtain hsent | ⟨cause, hmem, hcause⟩ := hbc.flushed hc
    swap
    · exact .inr ⟨cause, hmem, hcause⟩
    cases hb : b.closed with
    | true =>
        obtain hsent' | ⟨cause, hmem, hcause⟩ := hab.flushed hb
        · left
          rw [hsent, hab.closed.mp hb, List.append_nil, hsent']
        · exact .inr ⟨cause, hbc.causes.subset hmem, hcause⟩
    | false =>
        obtain ⟨first, hfirst, -, hopen⟩ := hab.sent
        left
        rw [hsent, hfirst, hopen hb, List.append_assoc]

/-- Steps that only deliver conclude, if they leave the pausing alone. -/
theorem concludes_of_delivers {a b : Connection} (ha : a.Flushing) (hb : b.Flushing)
    (hstopped : ¬ a.Serving) (hab : Delivers a b) (hpauses : b.pauses = a.pauses) :
    Concludes a b where
  stopped := hab.stopped hstopped
  executed := hab.executed
  queued := hab.queued
  pauses := hpauses
  sent := by
    obtain ⟨bytes, hsent, hprefix, hopen, -⟩ := hab.delivered
    exact ⟨bytes, hsent, hprefix, hopen⟩
  opened hopen := (hab.opened hopen).1
  causes := hab.causes
  closed := hb.closed_iff (hab.stopped hstopped)
  flushed hclosed := by
    cases hopen : a.closed with
    | true =>
        obtain ⟨bytes, hsent, -, -, hnone, -⟩ := hab.delivered
        left
        rw [hsent, hnone hopen, ha.closed hopen]
    | false =>
        obtain ⟨-, hsent | herror | hfailed⟩ := hab.closing hopen hclosed
        · exact .inl hsent
        · exact .inr ⟨_, herror, rfl⟩
        · exact .inr ⟨_, hfailed, rfl⟩

/-! ### The handlers after the final response -/

theorem updateReadBackPressure_of_stopped {conn : Connection} (h : ¬ conn.Serving)
    (o : NetworkOptions) : conn.updateReadBackPressure o = conn := by
  unfold updateReadBackPressure
  rw [if_pos]
  by_contra hflags
  simp only [Bool.or_eq_true, not_or, Bool.not_eq_true] at hflags
  exact h ⟨hflags.2, hflags.1⟩

theorem pauses_handleClientWrite {conn : Connection} (h : ¬ conn.Serving) (o : NetworkOptions)
    (input : IoInput Q) : (conn.handleClientWrite o input).pauses = conn.pauses := by
  unfold handleClientWrite
  split
  · rfl
  split
  · simp only [updateReadBackPressure_of_stopped h]
    split
    · rfl
    · rfl
  simp only
  cases input.send.result with
  | accepted bytes =>
      simp only
      split
      · have hsent (written : Nat) (buffer : OutputBuffer) (sent : Bytes) : ¬ Serving { conn with
            trace.sent := sent
            writeBuffer := buffer
            calls := conn.calls ++ [MetricCall.addBytesSent written] } := h
        simp only [sendBytes, updateReadBackPressure_of_stopped (hsent _ _ _)]
        split
        · simp [pauses, markClosed]
        · simp [pauses]
      · rfl
  | wouldBlock => rfl
  | failed => rfl

theorem pauses_hangUp (conn : Connection) : conn.hangUp.pauses = conn.pauses := by
  unfold hangUp
  simp only
  split
  · rfl
  · rfl

theorem pauses_refreshInterest {conn : Connection} (h : ¬ conn.Serving) (o : NetworkOptions) :
    (conn.refreshInterest o).1.pauses = conn.pauses := by
  unfold refreshInterest
  split
  · rfl
  simp only [updateReadBackPressure_of_stopped h]
  split
  · rfl
  split
  · rfl
  split
  · rfl
  · rfl

theorem pauses_beginDrain (o : NetworkOptions) (conn : Connection) :
    (conn.beginDrain o).1.pauses = conn.pauses := by
  unfold beginDrain
  simp only
  split
  · rfl
  · rw [pauses_refreshInterest (not_serving rfl)]
    rfl

theorem pauses_afterRead {conn : Connection} (h : ¬ conn.Serving) (o : NetworkOptions)
    (events : IoEvent) (input : IoInput Q) :
    (conn.afterRead o events input).1.pauses = conn.pauses := by
  have hwrite : ¬ Serving (if !conn.closed && events.write then
      conn.handleClientWrite o input else conn) ∧
      pauses (if !conn.closed && events.write then conn.handleClientWrite o input else conn) =
        conn.pauses := by
    split
    · exact ⟨(delivers_handleClientWrite o input conn).stopped h,
        pauses_handleClientWrite h o input⟩
    · exact ⟨h, rfl⟩
  unfold afterRead
  generalize (if !conn.closed && events.write then conn.handleClientWrite o input
    else conn) = written at hwrite
  have hhang : ¬ Serving (if !written.closed && events.hangup then written.hangUp
      else written) ∧
      pauses (if !written.closed && events.hangup then written.hangUp else written) =
        written.pauses := by
    split
    · exact ⟨(delivers_hangUp written).stopped hwrite.1, pauses_hangUp written⟩
    · exact ⟨hwrite.1, rfl⟩
  simp only
  generalize (if !written.closed && events.hangup then written.hangUp else written) = hung
    at hhang
  split
  · rw [pauses_refreshInterest hhang.1, hhang.2, hwrite.2]
  · rw [hhang.2, hwrite.2]

/-- The rest of the event in which the final response is queued. -/
theorem concludes_afterRead {conn : Connection} (h : conn.Flushing) (hstopped : ¬ conn.Serving)
    (o : NetworkOptions) (events : IoEvent) (input : IoInput Q) :
    Concludes conn (conn.afterRead o events input).1 :=
  concludes_of_delivers h (h.afterRead o events input) hstopped
    (delivers_afterRead o events input conn) (pauses_afterRead hstopped o events input)

theorem concludes_handleEvent {conn : Connection} (h : conn.Flushing)
    (hstopped : ¬ conn.Serving) (o : NetworkOptions) (state : ServerState) (events : IoEvent)
    (input : IoInput Q) (store : Store Q) :
    Concludes conn (conn.handleEvent o state events input store).1.1 := by
  have hread : conn.handleClientRead o input store = (conn, store) :=
    handleClientRead_refused (fun hreading => hstopped ⟨hreading.opened, hreading.serving⟩) o
      input store
  rw [handleEvent_cases, hread]
  split
  · exact concludes_of_delivers h (flushing_markClosed ..) hstopped
      (Delivers.markClosed conn rfl (.inr (.inl rfl))) rfl
  split
  · exact concludes_afterRead h hstopped o events input
  · exact concludes_afterRead h hstopped o events input

theorem concludes_beginDrain {conn : Connection} (h : conn.Flushing) (hstopped : ¬ conn.Serving)
    (o : NetworkOptions) : Concludes conn (conn.beginDrain o).1 :=
  concludes_of_delivers h (h.beginDrain o) hstopped (delivers_beginDrain o conn)
    (pauses_beginDrain o conn)

theorem concludes_forceClose (conn : Connection) (reason : ForcedClose) :
    Concludes conn (conn.markClosed reason.cause) where
  stopped := not_serving_markClosed _ _
  executed := rfl
  queued := rfl
  pauses := rfl
  sent := ⟨[], by simp [markClosed], List.nil_prefix, nofun⟩
  opened := nofun
  causes := List.prefix_append ..
  closed := iff_of_true rfl rfl
  flushed _ := by
    right
    refine ⟨reason.cause, by simp [markClosed], ?_⟩
    cases reason with
    | deadline => rfl
    | forceStop => rfl

theorem Concludes.register {before after : Connection} (h : Concludes before after)
    (events : IoEvent) : Concludes before { after with registeredEvents := events } :=
  ⟨h.stopped, h.executed, h.queued, h.pauses, h.sent, h.opened, h.causes, h.closed, h.flushed⟩

/-! ### QUIT -/

/-- The response to QUIT. -/
def bye : Bytes := ascii "+BYE"

theorem payloadResult_quit {payload : Bytes} (h : isQuit payload = true) (ambient : Ambient Q)
    (store : Store Q) : (payloadResult ambient store payload).1 = bye := by
  have htype : (CommandParser.parseCommand payload).type = .quit := of_decide_eq_true h
  have hrun := (ambient.interfere store).execute_eq ambient.now
    (CommandParser.parseCommand payload)
  simp only [CommandExecutor.execute, htype, pure, Except.pure, Except.ok.injEq,
    Prod.mk.injEq] at hrun
  simp only [payloadResult, respond, htype, reduceCtorEq, if_false, bye]
  exact hrun.1.symm

/-- Only the last executed payload is a QUIT, and its response is the last one, unless the
connection was too slow for it; a connection closes after QUIT when it has sent everything, or
after an interruption. -/
structure Dismissed (conn : Connection) : Prop where
  through : throughQuit conn.executedPayloads = conn.executedPayloads
  serving : conn.Serving → conn.executedPayloads.any isQuit = false
  last : conn.executedPayloads.any isQuit = true →
    .slowClient ∈ conn.trace.causes ∨ ∃ responses, conn.trace.queued = responses ++ [bye]
  flushed : conn.executedPayloads.any isQuit = true → conn.closed = true →
    .slowClient ∈ conn.trace.causes ∨ (∃ cause ∈ conn.trace.causes, interrupting cause = true) ∨
      conn.trace.sent = conn.trace.queued.flatMap frameOf

theorem dismissed_of_not_any {conn : Connection}
    (h : conn.executedPayloads.any isQuit = false) : conn.Dismissed where
  through := throughQuit_of_not_any h
  serving _ := h
  last hquit := by
    rw [h] at hquit
    cases hquit
  flushed hquit := by
    rw [h] at hquit
    cases hquit

theorem Dismissed.delivers {a b : Connection} (h : a.Dismissed) (hintact : a.Intact)
    (hab : Delivers a b) : b.Dismissed where
  through := by
    rw [hab.executedPayloads]
    exact h.through
  serving hserving := by
    rw [hab.executedPayloads]
    apply h.serving
    by_contra hstopped
    exact hab.stopped hstopped hserving
  last hquit := by
    rw [hab.executedPayloads] at hquit
    rw [hab.queued]
    exact (h.last hquit).imp_left fun hmem => hab.causes.subset hmem
  flushed hquit hclosed := by
    rw [hab.executedPayloads] at hquit
    rw [hab.queued]
    cases hopen : a.closed with
    | true =>
        obtain ⟨bytes, hsent, -, -, hnone, -⟩ := hab.delivered
        rw [hsent, hnone hopen, List.append_nil]
        obtain hslow | ⟨cause, hmem, hcause⟩ | hall := h.flushed hquit hopen
        · exact .inl (hab.causes.subset hslow)
        · exact .inr (.inl ⟨cause, hab.causes.subset hmem, hcause⟩)
        · exact .inr (.inr hall)
    | false =>
        obtain ⟨-, hsent | herror | hfailed⟩ := hab.closing hopen hclosed
        · rw [hsent, hintact.stream hopen]
          exact .inr (.inr rfl)
        · exact .inr (.inl ⟨_, herror, rfl⟩)
        · exact .inr (.inl ⟨_, hfailed, rfl⟩)

theorem Dismissed.forceClose {conn : Connection} (h : conn.Dismissed) (reason : ForcedClose) :
    (conn.markClosed reason.cause).Dismissed where
  through := h.through
  serving hserving := absurd hserving (not_serving_markClosed _ _)
  last hquit := (h.last hquit).imp_left fun hmem => List.mem_append_left _ hmem
  flushed _ _ := by
    right
    left
    refine ⟨reason.cause, by simp [markClosed], ?_⟩
    cases reason with
    | deadline => rfl
    | forceStop => rfl

/-- Payloads that end at their first QUIT. -/
theorem eq_append_quit {payloads : List Bytes} (h : throughQuit payloads = payloads)
    (hquit : payloads.any isQuit = true) :
    ∃ before payload, payloads = before ++ [payload] ∧ isQuit payload = true ∧
      before.any isQuit = false := by
  induction payloads with
  | nil => cases hquit
  | cons payload rest ih =>
      rw [throughQuit] at h
      cases hfirst : isQuit payload with
      | true =>
          rw [if_pos hfirst, List.cons.injEq] at h
          exact ⟨[], payload, by rw [← h.2]; rfl, hfirst, rfl⟩
      | false =>
          rw [if_neg (by simp [hfirst]), List.cons.injEq] at h
          obtain ⟨before, last, rfl, hlast, hnone⟩ := ih h.2 (by simpa [hfirst] using hquit)
          exact ⟨payload :: before, last, rfl, hlast, by simp [hfirst, hnone]⟩

/-- One more payload after payloads without a QUIT. -/
theorem dismissed_of_executed {conn after : Connection} {payload : Bytes}
    (h : conn.executedPayloads.any isQuit = false)
    (hexecuted : after.executedPayloads = conn.executedPayloads ++ [payload])
    (hserving : after.Serving → isQuit payload = false)
    (hlast : isQuit payload = true →
      .slowClient ∈ after.trace.causes ∨ ∃ responses, after.trace.queued = responses ++ [bye])
    (hclosed : isQuit payload = true → after.closed = true → .slowClient ∈ after.trace.causes) :
    after.Dismissed := by
  have hany : after.executedPayloads.any isQuit = isQuit payload := by
    simp [hexecuted, h]
  constructor
  · rw [hexecuted, throughQuit_append h]
    simp [throughQuit]
  · rw [hany]
    exact hserving
  · rw [hany]
    exact hlast
  · rw [hany]
    exact fun hquit hclosed' => .inl (hclosed hquit hclosed')

/-- A QUIT that is executed first among the QUITs is the last payload to be executed. -/
theorem dismissed_processPayload {conn : Connection} (hserving : conn.Serving)
    (h : conn.executedPayloads.any isQuit = false) (o : NetworkOptions) (ambient : Ambient Q)
    (store : Store Q) (payload : Bytes) :
    (conn.processPayload o ambient store payload).2.1.Dismissed ∧
      ((conn.processPayload o ambient store payload).1 = true →
        (conn.processPayload o ambient store payload).2.1.Serving ∧
          (conn.processPayload o ambient store payload).2.1.executedPayloads.any isQuit =
            false) := by
  have hexecuted : ∀ after : Connection,
      after.trace.executed =
        conn.trace.executed ++ [(payload, (payloadResult ambient store payload).1)] →
      after.executedPayloads = conn.executedPayloads ++ [payload] := by
    intro after heq
    simp [executedPayloads, heq]
  rcases processPayload_cases o ambient store conn payload with
    ⟨cause, calls, hrefusal, -, heq⟩ | ⟨paused, before, calls, -, -, -, -, heq⟩
  · rw [heq]
    have hslow (hquit : isQuit payload = true) :
        .slowClient ∈ ((conn.withExecuted payload (payloadResult ambient store payload).1
          calls).markClosed cause).trace.causes := by
      rw [payloadResult_quit hquit] at hrefusal
      obtain ⟨rfl, -⟩ | ⟨-, hlarge⟩ := hrefusal
      · simp [markClosed]
      · exact absurd hlarge (by decide)
    refine ⟨dismissed_of_executed h (hexecuted _ rfl) ?_ ?_ ?_, ?_⟩
    · exact fun hserving => absurd hserving (not_serving_markClosed _ _)
    · exact fun hquit => .inl (hslow hquit)
    · exact fun hquit _ => hslow hquit
    · intro hcontinues
      cases hcontinues
  · rw [heq]
    have hafter := hexecuted { (conn.withExecuted payload
        (payloadResult ambient store payload).1 before).withResponse
          (payloadResult ambient store payload).1 paused calls with
      closeAfterWrite := conn.closeAfterWrite || isQuit payload } rfl
    refine ⟨dismissed_of_executed h hafter ?_ ?_ ?_, ?_⟩
    · intro hserving
      exact (Bool.or_eq_false_iff.mp hserving.2).2
    · intro hquit
      right
      rw [payloadResult_quit hquit]
      exact ⟨conn.trace.queued, rfl⟩
    · intro _ hclosed
      change conn.closed = true at hclosed
      rw [hserving.1] at hclosed
      cases hclosed
    · rw [hafter]
      intro hcontinues
      have hquit : isQuit payload = false := by simpa using hcontinues
      refine ⟨⟨hserving.1, ?_⟩, ?_⟩
      · simp [hserving.2, hquit]
      · simp [h, hquit]

theorem dismissed_processPayloads (o : NetworkOptions) (payloads : List Bytes)
    (ambient : Nat → Ambient Q) (store : Store Q) {conn : Connection} (hserving : conn.Serving)
    (h : conn.executedPayloads.any isQuit = false) :
    (conn.processPayloads o ambient store payloads).1.Dismissed := by
  induction payloads generalizing ambient store conn with
  | nil => exact dismissed_of_not_any h
  | cons payload rest ih =>
      obtain ⟨hdismissed, hcontinues⟩ :=
        dismissed_processPayload hserving h o (ambient 0) store payload
      unfold processPayloads
      generalize conn.processPayload o (ambient 0) store payload = result
        at hdismissed hcontinues ⊢
      obtain ⟨continues, mid, store'⟩ := result
      cases continues with
      | false => exact hdismissed
      | true =>
          obtain ⟨hserving', hnone⟩ := hcontinues rfl
          exact ih _ _ hserving' hnone

theorem dismissed_receiveBytes {conn : Connection} (hserving : conn.Serving)
    (h : conn.executedPayloads.any isQuit = false) (o : NetworkOptions)
    (ambient : Nat → Ambient Q) (store : Store Q) (bytes : Bytes) :
    (conn.receiveBytes o ambient store bytes).1.Dismissed := by
  cases hrejected : (frameParser.drain (conn.readBuffer ++ bytes)).rejected with
  | true =>
      rw [receiveBytes_rejected hrejected]
      apply dismissed_of_not_any
      rw [executedPayloads_finalResponse]
      exact h
  | false =>
      rw [receiveBytes_accepted hrejected]
      exact dismissed_processPayloads o _ ambient store hserving h

theorem executedPayloads_rejectOversizedReadBuffer (o : NetworkOptions) (conn : Connection) :
    (conn.rejectOversizedReadBuffer o).executedPayloads = conn.executedPayloads := by
  rw [rejectOversizedReadBuffer_eq]
  rcases queueResponse_cases o conn (ascii "-ERR request buffer too large") with
    ⟨cause, calls, -, -, heq⟩ | ⟨paused, calls, -, -, -, heq⟩
  · rw [heq]
    rfl
  · rw [heq]
    rfl

theorem Dismissed.handleClientRead {conn : Connection} (h : conn.Dismissed) (o : NetworkOptions)
    (input : IoInput Q) (store : Store Q) :
    (conn.handleClientRead o input store).1.Dismissed := by
  by_cases hreading : conn.Reading
  swap
  · rw [handleClientRead_refused hreading]
    exact h
  have hserving : conn.Serving := ⟨hreading.opened, hreading.serving⟩
  have hnone := h.serving hserving
  have houtcome := handleClientRead_outcome hreading o input store
  generalize conn.handleClientRead o input store = result at houtcome ⊢
  cases houtcome with
  | oversized hfull =>
      apply dismissed_of_not_any
      rw [executedPayloads_rejectOversizedReadBuffer]
      exact hnone
  | ended hroom hrecv hnil => exact dismissed_of_not_any hnone
  | bytes hroom hrecv hnil => exact dismissed_receiveBytes hserving hnone o input.ambient store _
  | wouldBlock hrecv => exact h
  | failed hrecv => exact dismissed_of_not_any hnone

theorem Dismissed.handleEvent {conn : Connection} (h : conn.Dismissed) (hintact : conn.Intact)
    (o : NetworkOptions) (state : ServerState) (events : IoEvent) (input : IoInput Q)
    (store : Store Q) : (conn.handleEvent o state events input store).1.1.Dismissed := by
  rw [handleEvent_cases]
  split
  · exact h.delivers hintact (Delivers.markClosed conn rfl (.inr (.inl rfl)))
  split
  · exact (h.handleClientRead o input store).delivers (hintact.handleClientRead o input store)
      (delivers_afterRead o events input _)
  · exact h.delivers hintact (delivers_afterRead o events input conn)

end Connection

namespace Session

theorem flushing_step {o : NetworkOptions} {s : Session Q} (h : s.conn.Flushing)
    (event : SessionEvent Q) : (s.step o event).conn.Flushing := by
  rcases s.step_conn o event with
    hsame | ⟨reason, hclosed⟩ | ⟨registered, hdrain⟩ | ⟨events, input, registered, -, hready⟩
  · rw [hsame]
    exact h
  · rw [hclosed]
    exact Connection.flushing_markClosed ..
  · rw [hdrain]
    exact (h.beginDrain o).same rfl rfl rfl
  · rw [hready]
    exact (h.handleEvent o s.phase events input s.store).same rfl rfl rfl

theorem flushing_run (o : NetworkOptions) (fd : Int) (store : Store Q)
    (events : List (SessionEvent Q)) : ((start fd store).run o events).conn.Flushing :=
  (machine o).run_invariant (I := fun s => s.conn.Flushing)
    (fun _ h event _ => flushing_step h event) (Connection.flushing_accepted fd)

theorem concludes_step {o : NetworkOptions} {s : Session Q} (h : s.conn.Flushing)
    (hstopped : ¬ s.conn.Serving) (event : SessionEvent Q) :
    Connection.Concludes s.conn (s.step o event).conn := by
  rcases s.step_conn o event with
    hsame | ⟨reason, hclosed⟩ | ⟨registered, hdrain⟩ | ⟨events, input, registered, -, hready⟩
  · rw [hsame]
    exact .refl h hstopped
  · rw [hclosed]
    exact Connection.concludes_forceClose s.conn reason
  · rw [hdrain]
    exact (Connection.concludes_beginDrain h hstopped o).register registered
  · rw [hready]
    exact (Connection.concludes_handleEvent h hstopped o s.phase events input
      s.store).register registered

/-- Every later run concludes. -/
theorem concludes_run {o : NetworkOptions} {s : Session Q} (h : s.conn.Flushing)
    (hstopped : ¬ s.conn.Serving) (later : List (SessionEvent Q)) :
    Connection.Concludes s.conn (s.run o later).conn := by
  have hall : (s.run o later).conn.Flushing ∧
      Connection.Concludes s.conn (s.run o later).conn := by
    apply (machine o).run_invariant
      (I := fun after => after.conn.Flushing ∧ Connection.Concludes s.conn after.conn)
    · rintro after ⟨hflushing, hconcludes⟩ event -
      exact ⟨flushing_step hflushing event,
        hconcludes.trans (concludes_step hflushing hconcludes.stopped event)⟩
    · exact ⟨h, .refl h hstopped⟩
  exact hall.2

theorem dismissed_step {o : NetworkOptions} {s : Session Q} (h : s.conn.Dismissed)
    (hintact : s.conn.Intact) (event : SessionEvent Q) : (s.step o event).conn.Dismissed := by
  rcases s.step_conn o event with
    hsame | ⟨reason, hclosed⟩ | ⟨registered, hdrain⟩ | ⟨events, input, registered, -, hready⟩
  · rw [hsame]
    exact h
  · rw [hclosed]
    exact h.forceClose reason
  · rw [hdrain]
    exact h.delivers hintact
      ((Connection.delivers_beginDrain o s.conn).trans (.register _ registered))
  · rw [hready]
    exact (h.handleEvent hintact o s.phase events input s.store).delivers
      (hintact.handleEvent o s.phase events input s.store) (.register _ registered)

theorem dismissed_run (o : NetworkOptions) (fd : Int) (store : Store Q)
    (events : List (SessionEvent Q)) : ((start fd store).run o events).conn.Dismissed := by
  have hall : ((start fd store).run o events).conn.Intact ∧
      ((start fd store).run o events).conn.Dismissed := by
    apply (machine o).run_invariant (I := fun s => s.conn.Intact ∧ s.conn.Dismissed)
    · rintro s ⟨hintact, hdismissed⟩ event -
      exact ⟨intact_step o hintact event, dismissed_step hdismissed hintact event⟩
    · exact ⟨Connection.intact_accepted fd, Connection.dismissed_of_not_any rfl⟩
  exact hall.2

/-- Once a connection is to close after the write, whatever happens later concludes; so does the
rest of the event in which reading sets the flag. Only the last payload that is executed is a QUIT,
also when others follow it in the same batch, and its response is the last thing that is queued
and sent, unless the connection is too slow for it; without an interruption, the connection closes
when it has been sent. -/
theorem nothing_follows (o : NetworkOptions) (fd : Int) (store : Store Q)
    (events later : List (SessionEvent Q)) :
    let s := (start fd store).run o events
    let final := (s.run o later).conn
    (s.conn.closeAfterWrite = true → Connection.Concludes s.conn final) ∧
    (∀ (ready : IoEvent) (input : IoInput Q),
      let read := (s.conn.handleClientRead o input s.store).1
      read.closeAfterWrite = true → Connection.Concludes read (read.afterRead o ready input).1) ∧
    (s.conn.executedPayloads.any Connection.isQuit = true →
      (∃ before payload, final.executedPayloads = before ++ [payload] ∧
        s.conn.executedPayloads = before ++ [payload] ∧ Connection.isQuit payload = true ∧
        before.any Connection.isQuit = false) ∧
      (.slowClient ∈ final.trace.causes ∨
        ∃ responses, final.trace.queued = responses ++ [Connection.bye] ∧
          final.trace.sent <+: responses.flatMap frameOf ++ frameOf Connection.bye ∧
          (final.closed = true →
            (∀ cause ∈ final.trace.causes, Connection.interrupting cause = false) →
              final.trace.sent = responses.flatMap frameOf ++ frameOf Connection.bye))) := by
  intro s final
  have hflushing : s.conn.Flushing := flushing_run o fd store events
  refine ⟨fun hclose => ?_, fun ready input => ?_, fun hquit => ?_⟩
  · exact concludes_run hflushing (Connection.not_serving hclose) later
  · intro read hclose
    exact Connection.concludes_afterRead (hflushing.handleClientRead o input s.store)
      (Connection.not_serving hclose) o ready input
  have hdismissed : s.conn.Dismissed := dismissed_run o fd store events
  have hstopped : ¬ s.conn.Serving := by
    intro hserving
    rw [hdismissed.serving hserving] at hquit
    cases hquit
  have hconcludes : Connection.Concludes s.conn final :=
    concludes_run hflushing hstopped later
  have hsame : final.executedPayloads = s.conn.executedPayloads := by
    rw [Connection.executedPayloads, hconcludes.executed, Connection.executedPayloads]
  constructor
  · obtain ⟨before, payload, hpayloads, hlast, hnone⟩ :=
      Connection.eq_append_quit hdismissed.through hquit
    exact ⟨before, payload, hsame.trans hpayloads, hpayloads, hlast, hnone⟩
  · have hrun : (start fd store).run o (events ++ later) = s.run o later :=
      (machine o).run_append (start fd store) events later
    have hdismissed' := dismissed_run o fd store (events ++ later)
    have hintact := intact_run o fd store (events ++ later)
    rw [hrun] at hdismissed' hintact
    rw [← hsame] at hquit
    obtain hslow | ⟨responses, hqueued⟩ := hdismissed'.last hquit
    · exact .inl hslow
    have hstream : final.trace.queued.flatMap frameOf =
        responses.flatMap frameOf ++ frameOf Connection.bye := by
      rw [hqueued, Connection.flatMap_frameOf_append_singleton]
    by_cases hslow : .slowClient ∈ final.trace.causes
    · exact .inl hslow
    refine .inr ⟨responses, hqueued, hstream ▸ hintact.sent, fun hclosed hcalm => ?_⟩
    obtain hslow' | ⟨cause, hmem, hcause⟩ | hall := hdismissed'.flushed hquit hclosed
    · exact absurd hslow' hslow
    · rw [hcalm cause hmem] at hcause
      cases hcause
    · exact hall.trans hstream

/-- A PING pipelined behind a QUIT is not executed. -/
example :
    let s := fresh.run {} [readable (frameOf (ascii "QUIT") ++ frameOf (ascii "PING"))]
    s.conn.executedPayloads = [ascii "QUIT"] ∧ s.conn.trace.queued = [Connection.bye] ∧
      s.conn.closeAfterWrite = true ∧ s.conn.closed = false := by
  decide

end Session

end TinyKv
