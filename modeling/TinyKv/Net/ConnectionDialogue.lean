import TinyKv.Net.ReadBufferLimit
import TinyKv.Net.ResponseStream

/-!
# Requests and responses of a connection

The executed payloads are the first requests of the received stream, and the queued
responses are theirs, one each, in order. One response may follow that answers no executed
payload: the refusal of a request that does not fit the read buffer. On a stream of frames
there is no other.
-/

namespace TinyKv

open Foundation FrameCodec

variable {Q : ExpirationQueue}

/-- The bytes that have arrived for a `recv`. -/
def IoInput.arrived (input : IoInput Q) : Bytes :=
  match input.recv.result with
  | .bytes ready => ready
  | .wouldBlock | .failed => []

namespace Connection

/-- The responses that are queued belong to the executed payloads, or those and a request
that fills the read buffer and has not come whole, or else the stream is malformed. -/
inductive Replies (o : NetworkOptions) (conn : Connection) : Prop where
  | answers (h : conn.trace.queued <+: conn.trace.executed.map Prod.snd)
  | refusal (hstopped : ¬ conn.Serving)
      (hexecuted : conn.executedPayloads = (frameParser.drain conn.stream).items)
      (hqueued : conn.trace.queued =
        conn.trace.executed.map Prod.snd ++ [requestBufferTooLarge])
      (hpart : o.maxReadBufferBytes ≤ (frameParser.drain conn.stream).rest.length)
  | malformed (h : (frameParser.drain conn.stream).rejected = true)

/-- The requests of the stream, their execution and their responses go together. -/
structure Conversed (o : NetworkOptions) (conn : Connection) : Prop where
  parsed : conn.Parsed
  intact : conn.Intact
  executed : conn.executedPayloads <+: (frameParser.drain conn.stream).items
  replies : conn.Replies o

theorem conversed_accepted (o : NetworkOptions) (fd : Int) : (accepted fd).Conversed o where
  parsed := parsed_accepted fd
  intact := intact_accepted fd
  executed := List.nil_prefix
  replies := .answers List.prefix_rfl

/-- A serving connection has queued exactly the responses of its executed payloads. -/
theorem Intact.queued_eq {conn : Connection} (h : conn.Intact) (hserving : conn.Serving) :
    conn.trace.queued = conn.trace.executed.map Prod.snd := by
  obtain heq | ⟨hclose, -⟩ := h.answered hserving.1
  · exact heq
  · rw [hserving.2] at hclose
    cases hclose

theorem Replies.delivers {o : NetworkOptions} {a b : Connection} (h : a.Replies o)
    (hab : Delivers a b) : b.Replies o := by
  cases h with
  | answers hqueued =>
      apply Replies.answers
      rw [hab.queued, hab.executed]
      exact hqueued
  | refusal hstopped hexecuted hqueued hpart =>
      apply Replies.refusal (hab.stopped hstopped)
      · rw [hab.executedPayloads, hab.stream]
        exact hexecuted
      · rw [hab.queued, hab.executed]
        exact hqueued
      · rw [hab.stream]
        exact hpart
  | malformed hrejected =>
      apply Replies.malformed
      rw [hab.stream]
      exact hrejected

theorem Conversed.delivers {o : NetworkOptions} {a b : Connection} (h : a.Conversed o)
    (hab : Delivers a b) : b.Conversed o where
  parsed := h.parsed.delivers hab
  intact := h.intact.delivers hab
  executed := by
    rw [hab.executedPayloads, hab.stream]
    exact h.executed
  replies := h.replies.delivers hab

/-- Closing a serving connection leaves the responses to its requests. -/
theorem Conversed.markClosed {o : NetworkOptions} {conn : Connection} (h : conn.Conversed o)
    (cause : CloseCause) : (conn.markClosed cause).Conversed o where
  parsed := parsed_of_stopped (not_serving_markClosed conn cause)
  intact := h.intact.markClosed cause
  executed := h.executed
  replies := by
    cases h.replies with
    | answers hqueued => exact .answers hqueued
    | refusal hstopped hexecuted hqueued hpart =>
        exact .refusal (not_serving_markClosed conn cause) hexecuted hqueued hpart
    | malformed hrejected => exact .malformed hrejected

/-! ### Reading -/

/-- A batch executes the first of its payloads and queues their responses, but the last one
when it is refused; by induction on the batch. -/
theorem replies_processPayloads (o : NetworkOptions) (payloads : List Bytes)
    (ambient : Nat → Ambient Q) (store : Store Q) (conn : Connection)
    (h : conn.trace.queued = conn.trace.executed.map Prod.snd) :
    ∃ done : List (Bytes × Bytes),
      (conn.processPayloads o ambient store payloads).1.trace.executed =
          conn.trace.executed ++ done ∧
        done.map Prod.fst <+: payloads ∧
        (conn.processPayloads o ambient store payloads).1.trace.queued <+:
          (conn.processPayloads o ambient store payloads).1.trace.executed.map Prod.snd ∧
        (conn.processPayloads o ambient store payloads).1.trace.received =
          conn.trace.received := by
  induction payloads generalizing ambient store conn with
  | nil =>
      refine ⟨[], ?_, List.nil_prefix, ?_, rfl⟩
      · simp [processPayloads]
      · simp [processPayloads, h]
  | cons payload rest ih =>
      unfold processPayloads
      rcases processPayload_cases o (ambient 0) store conn payload with
        ⟨cause, calls, -, -, heq⟩ | ⟨paused, before, calls, -, -, -, -, heq⟩
      · rw [heq]
        refine ⟨[(payload, (payloadResult (ambient 0) store payload).1)], rfl, ?_, ?_, rfl⟩
        · simp
        · simp [Connection.markClosed, withExecuted, h]
      · rw [heq]
        cases hquit : isQuit payload with
        | true =>
            refine ⟨[(payload, (payloadResult (ambient 0) store payload).1)], rfl, ?_, ?_, rfl⟩
            · simp
            · simp [withResponse, withExecuted, h]
        | false =>
            obtain ⟨done, hexecuted, hdone, hqueued, hreceived⟩ :=
              ih (fun i => ambient (i + 1)) (payloadResult (ambient 0) store payload).2
                { (conn.withExecuted payload (payloadResult (ambient 0) store payload).1
                  before).withResponse (payloadResult (ambient 0) store payload).1 paused calls with
                    closeAfterWrite := conn.closeAfterWrite || false }
                (by simp [withResponse, withExecuted, h])
            refine ⟨(payload, (payloadResult (ambient 0) store payload).1) :: done, ?_, ?_,
              hqueued, hreceived⟩
            · simp only [Bool.not_false]
              rw [hexecuted]
              simp [withResponse, withExecuted]
            · exact (List.prefix_cons_inj payload).mpr hdone

/-- The items of a stream are the first items of any longer stream. -/
theorem items_beginning (before more : Bytes) :
    (frameParser.drain before).items <+: (frameParser.drain (before ++ more)).items := by
  obtain ⟨rest, hrest⟩ := items_append before more
  rw [hrest]
  exact List.prefix_append ..

/-- One `recv` result on a serving connection. -/
theorem Conversed.receiveBytes {o : NetworkOptions} {conn : Connection} (h : conn.Conversed o)
    (hserving : conn.Serving) (ambient : Nat → Ambient Q) (store : Store Q) (bytes : Bytes) :
    (conn.receiveBytes o ambient store bytes).1.Conversed o := by
  obtain ⟨haccepted, hbuffer, hexecuted⟩ := h.parsed hserving
  have hreceived := received_receiveBytes o ambient store hserving.1 hserving.2 bytes
  have hstream : (conn.receiveBytes o ambient store bytes).1.stream = conn.stream ++ bytes := by
    simp [stream, hreceived.received]
  have hdrain := frameParser.drain_append haccepted bytes
  rw [← hbuffer] at hdrain
  refine ⟨h.parsed.received hserving hreceived,
    h.intact.receiveBytes hserving.2 o ambient store bytes, ?_, ?_⟩
  · rw [hstream]
    cases hrejected : (frameParser.drain (conn.readBuffer ++ bytes)).rejected with
    | true =>
        rw [receiveBytes_rejected hrejected, executedPayloads_finalResponse]
        exact h.executed.trans (items_beginning conn.stream bytes)
    | false =>
        rw [receiveBytes_accepted hrejected, hdrain]
        obtain ⟨done, hdone, hpayloads, -, -⟩ := replies_processPayloads o
          (frameParser.drain (conn.readBuffer ++ bytes)).items ambient store
          (conn.withInput bytes
            (.addFramesReceived (frameParser.drain (conn.readBuffer ++ bytes)).items.length))
          (h.intact.queued_eq hserving)
        rw [executedPayloads, hdone, List.map_append]
        change conn.executedPayloads ++ _ <+: _
        rw [hexecuted]
        exact (List.prefix_append_right_inj _).mpr hpayloads
  · cases hrejected : (frameParser.drain (conn.readBuffer ++ bytes)).rejected with
    | true =>
        apply Replies.malformed
        rw [hstream, hdrain, hrejected]
    | false =>
        apply Replies.answers
        rw [receiveBytes_accepted hrejected]
        obtain ⟨done, -, -, hqueued, -⟩ := replies_processPayloads o
          (frameParser.drain (conn.readBuffer ++ bytes)).items ambient store
          (conn.withInput bytes
            (.addFramesReceived (frameParser.drain (conn.readBuffer ++ bytes)).items.length))
          (h.intact.queued_eq hserving)
        exact hqueued

/-- The refusal of a request that does not fit the read buffer: its response is queued, or
refused as well. -/
theorem Conversed.rejectOversizedReadBuffer {o : NetworkOptions} {conn : Connection}
    (h : conn.Conversed o) (hserving : conn.Serving)
    (hbuffer : o.maxReadBufferBytes ≤ conn.readBuffer.length) :
    (conn.rejectOversizedReadBuffer o).Conversed o := by
  obtain ⟨-, hrest, hexecuted⟩ := h.parsed hserving
  have hqueued := h.intact.queued_eq hserving
  rcases queueResponse_cases o conn (ascii "-ERR request buffer too large") with
    ⟨cause, calls, -, hcalls, heq⟩ | ⟨paused, calls, -, -, -, heq⟩
  · have hrefused : ({ conn with calls := conn.calls ++ calls } : Connection).Conversed o :=
      ⟨h.parsed, h.intact.uncounted hcalls, h.executed, .answers (hqueued ▸ List.prefix_rfl)⟩
    rw [rejectOversizedReadBuffer_eq, heq]
    exact (hrefused.markClosed cause).markClosed .oversized
  · have hfinal := h.intact.finalResponse hserving.2 o (.inr rfl) heq
    rw [rejectOversizedReadBuffer_eq, heq]
    refine ⟨parsed_of_stopped (not_serving rfl), hfinal, h.executed, ?_⟩
    apply Replies.refusal (not_serving rfl)
    · exact hexecuted
    · change conn.trace.queued ++ [requestBufferTooLarge] = _
      rw [hqueued]
      rfl
    · change o.maxReadBufferBytes ≤ (frameParser.drain conn.stream).rest.length
      rw [← hrest]
      exact hbuffer

theorem Conversed.handleClientRead {o : NetworkOptions} {conn : Connection}
    (h : conn.Conversed o) (input : IoInput Q) (store : Store Q) :
    (conn.handleClientRead o input store).1.Conversed o := by
  by_cases hreading : conn.Reading
  swap
  · rw [handleClientRead_refused hreading]
    exact h
  have hserving : conn.Serving := ⟨hreading.opened, hreading.serving⟩
  have houtcome := handleClientRead_outcome hreading o input store
  generalize conn.handleClientRead o input store = result at houtcome ⊢
  cases houtcome with
  | oversized hfull => exact h.rejectOversizedReadBuffer hserving hfull
  | ended _ hrecv hnil =>
      rw [receiveEnd_eq]
      exact (h.markClosed .endOfInput).markClosed .endOfInput
  | bytes _ hrecv hnil => exact h.receiveBytes hserving input.ambient store _
  | wouldBlock hrecv => exact h
  | failed hrecv => exact h.markClosed .recvFailed

theorem Conversed.handleEvent {o : NetworkOptions} {conn : Connection} (h : conn.Conversed o)
    (state : ServerState) (events : IoEvent) (input : IoInput Q) (store : Store Q) :
    (conn.handleEvent o state events input store).1.1.Conversed o := by
  rw [handleEvent_cases]
  split
  · exact h.markClosed .errorEvent
  split
  · exact (h.handleClientRead input store).delivers (delivers_afterRead o events input _)
  · exact h.delivers (delivers_afterRead o events input conn)

/-! ### What an event moves -/

/-- Bytes are received from those that have arrived, and sent behind those sent before. -/
structure Moves (arrived : Bytes) (before after : Connection) : Prop where
  received : ∃ bytes, after.stream = before.stream ++ bytes ∧ bytes <+: arrived
  sent : before.trace.sent <+: after.trace.sent

theorem Delivers.moves {a b : Connection} (hab : Delivers a b) (arrived : Bytes) :
    Moves arrived a b := by
  obtain ⟨bytes, hsent, -⟩ := hab.delivered
  exact ⟨⟨[], by simp [hab.stream], List.nil_prefix⟩, hsent ▸ List.prefix_append ..⟩

theorem moves_markClosed (conn : Connection) (cause : CloseCause) (arrived : Bytes) :
    Moves arrived conn (conn.markClosed cause) :=
  ⟨⟨[], by simp [stream, markClosed], List.nil_prefix⟩, List.prefix_rfl⟩

theorem Moves.delivers {arrived : Bytes} {a b c : Connection} (hab : Moves arrived a b)
    (hbc : Delivers b c) : Moves arrived a c := by
  obtain ⟨bytes, hstream, hprefix⟩ := hab.received
  obtain ⟨more, hsent, -⟩ := hbc.delivered
  refine ⟨⟨bytes, hbc.stream.trans hstream, hprefix⟩, hab.sent.trans ?_⟩
  rw [hsent]
  exact List.prefix_append ..

/-- A batch of payloads moves no bytes. -/
theorem sent_processPayloads (o : NetworkOptions) (payloads : List Bytes)
    (ambient : Nat → Ambient Q) (store : Store Q) (conn : Connection) :
    (conn.processPayloads o ambient store payloads).1.trace.sent = conn.trace.sent := by
  induction payloads generalizing ambient store conn with
  | nil => rfl
  | cons payload rest ih =>
      unfold processPayloads
      rcases processPayload_cases o (ambient 0) store conn payload with
        ⟨cause, calls, -, -, heq⟩ | ⟨paused, before, calls, -, -, -, -, heq⟩
      · rw [heq]
        rfl
      · rw [heq]
        cases isQuit payload with
        | true => rfl
        | false => exact ih _ _ _

theorem finalResponse_sent (o : NetworkOptions) (conn : Connection) (response : Bytes) :
    (conn.finalResponse o response).trace.sent = conn.trace.sent := by
  rcases finalResponse_cases o conn response with
    ⟨cause, calls, -, -, heq⟩ | ⟨paused, calls, -, -, heq⟩
  · rw [heq]
    rfl
  · rw [heq]
    rfl

theorem moves_receiveBytes {conn : Connection} (hserving : conn.Serving) (o : NetworkOptions)
    (ambient : Nat → Ambient Q) (store : Store Q) (bytes : Bytes) :
    Moves bytes conn (conn.receiveBytes o ambient store bytes).1 := by
  have hreceived := received_receiveBytes o ambient store hserving.1 hserving.2 bytes
  refine ⟨⟨bytes, by simp [stream, hreceived.received], List.prefix_rfl⟩, ?_⟩
  cases hrejected : (frameParser.drain (conn.readBuffer ++ bytes)).rejected with
  | true =>
      rw [receiveBytes_rejected hrejected, finalResponse_sent]
      exact List.prefix_rfl
  | false =>
      rw [receiveBytes_accepted hrejected, sent_processPayloads]
      exact List.prefix_rfl

theorem moves_rejectOversizedReadBuffer (o : NetworkOptions) (conn : Connection)
    (arrived : Bytes) : Moves arrived conn (conn.rejectOversizedReadBuffer o) := by
  rcases queueResponse_cases o conn (ascii "-ERR request buffer too large") with
    ⟨cause, calls, -, -, heq⟩ | ⟨paused, calls, -, -, -, heq⟩
  · rw [rejectOversizedReadBuffer_eq, heq]
    exact ⟨⟨[], (List.append_nil _).symm, List.nil_prefix⟩, List.prefix_rfl⟩
  · rw [rejectOversizedReadBuffer_eq, heq]
    exact ⟨⟨[], (List.append_nil _).symm, List.nil_prefix⟩, List.prefix_rfl⟩

theorem moves_handleClientRead (o : NetworkOptions) (input : IoInput Q) (store : Store Q)
    (conn : Connection) : Moves input.arrived conn (conn.handleClientRead o input store).1 := by
  by_cases hreading : conn.Reading
  swap
  · rw [handleClientRead_refused hreading]
    exact (Delivers.refl conn).moves _
  have houtcome := handleClientRead_outcome hreading o input store
  generalize conn.handleClientRead o input store = result at houtcome ⊢
  cases houtcome with
  | oversized hfull => exact moves_rejectOversizedReadBuffer o conn _
  | ended _ hrecv hnil =>
      rw [receiveEnd_eq]
      exact ⟨⟨[], (List.append_nil _).symm, List.nil_prefix⟩, List.prefix_rfl⟩
  | @bytes ready _ hrecv hnil =>
      have hmoves := moves_receiveBytes ⟨hreading.opened, hreading.serving⟩ o input.ambient store
        (ready.take (conn.readSize o))
      obtain ⟨bytes, hstream, hprefix⟩ := hmoves.received
      refine ⟨⟨bytes, hstream, hprefix.trans ?_⟩, hmoves.sent⟩
      rw [IoInput.arrived, hrecv]
      exact List.take_prefix ..
  | wouldBlock hrecv => exact (Delivers.refl conn).moves _
  | failed hrecv => exact moves_markClosed conn .recvFailed _

/-- The handling of a ready event. -/
theorem moves_handleEvent (o : NetworkOptions) (state : ServerState) (events : IoEvent)
    (input : IoInput Q) (store : Store Q) (conn : Connection) :
    Moves input.arrived conn (conn.handleEvent o state events input store).1.1 := by
  rw [handleEvent_cases]
  split
  · exact moves_markClosed conn .errorEvent _
  split
  · exact (moves_handleClientRead o input store conn).delivers (delivers_afterRead o events input _)
  · exact (delivers_afterRead o events input conn).moves _

end Connection

namespace Session

theorem conversed_step {o : NetworkOptions} {s : Session Q} (h : s.conn.Conversed o)
    (event : SessionEvent Q) : (s.step o event).conn.Conversed o := by
  rcases s.step_conn o event with
    hsame | ⟨reason, hclosed⟩ | ⟨registered, hdrain⟩ | ⟨events, input, registered, -, hready⟩
  · rw [hsame]
    exact h
  · rw [hclosed]
    exact h.markClosed reason.cause
  · rw [hdrain]
    exact h.delivers ((Connection.delivers_beginDrain o s.conn).trans (.register _ registered))
  · rw [hready]
    exact (h.handleEvent s.phase events input s.store).delivers (.register _ registered)

end Session

/-- The bytes that have arrived for an event. -/
def SessionEvent.arrived : SessionEvent Q → Bytes
  | .ready _ input _ => input.arrived
  | .beginDrain _ | .forceClose _ | .abort => []

namespace Session

theorem moves_step (o : NetworkOptions) (s : Session Q) (event : SessionEvent Q) :
    Connection.Moves event.arrived s.conn (s.step o event).conn := by
  have hstay : Connection.Moves event.arrived s.conn s.conn :=
    (Connection.Delivers.refl s.conn).moves _
  cases event with
  | ready events input modityOk =>
      by_cases hstopped : s.phase = .stopped
      · simpa [step, hstopped] using hstay
      · obtain ⟨registered, heq⟩ := step_ready hstopped o events input modityOk
        rw [heq]
        exact (Connection.moves_handleEvent o s.phase events input s.store s.conn).delivers
          (.register _ registered)
  | beginDrain modityOk =>
      by_cases hrunning : s.phase = .running
      · obtain ⟨registered, heq⟩ := step_beginDrain hrunning o modityOk
        rw [heq]
        exact ((Connection.delivers_beginDrain o s.conn).trans (.register _ registered)).moves _
      · simpa [step, hrunning] using hstay
  | forceClose reason =>
      by_cases hstopped : s.phase = .stopped
      · simpa [step, hstopped] using hstay
      · rw [step, if_neg hstopped]
        exact Connection.moves_markClosed s.conn reason.cause _
  | abort => exact hstay

end Session

end TinyKv
