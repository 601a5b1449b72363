import TinyKv.Net.Session

/-!
# The response stream

On every run of a connection the bytes handed to the kernel, followed by the bytes
still pending, are the frames of the queued responses in order; the responses are those
of the executed payloads, one each, and at most one error response after them.
-/

namespace TinyKv

open Foundation FrameCodec

variable {Q : ExpirationQueue}

/-- The response to a frame header that declares too much. -/
def protocolError : Bytes := ascii "-ERR protocol error"

/-- The response to a read buffer that has reached its limit. -/
def requestBufferTooLarge : Bytes := ascii "-ERR request buffer too large"

namespace Connection

/-- The responses are those of the executed payloads, or those and a final error
response, after which the connection closes. -/
def Answered (conn : Connection) : Prop :=
  conn.trace.queued = conn.trace.executed.map Prod.snd ∨
    (conn.closeAfterWrite = true ∧ ∃ final,
      (final = protocolError ∨ final = requestBufferTooLarge) ∧
      conn.trace.queued = conn.trace.executed.map Prod.snd ++ [final])

/-- The response stream is intact. -/
structure Intact (conn : Connection) : Prop where
  fits : ∀ response ∈ conn.trace.queued, response.length ≤ maxFrameSize
  stream : conn.closed = false →
    conn.trace.sent ++ conn.pending = conn.trace.queued.flatMap frameOf
  answered : conn.closed = false → conn.Answered
  sent : conn.trace.sent <+: conn.trace.queued.flatMap frameOf
  counted : bytesSent conn.calls = conn.trace.sent.length

theorem intact_accepted (fd : Int) : (accepted fd).Intact where
  fits := by simp [accepted]
  stream _ := rfl
  answered _ := .inl rfl
  sent := List.prefix_rfl
  counted := rfl

theorem Answered.delivers {a b : Connection} (h : a.Answered) (hab : Delivers a b)
    (hopen : b.closed = false) : b.Answered := by
  rw [Answered, hab.queued, hab.executed]
  obtain h | ⟨hclose, final⟩ := h
  · exact .inl h
  · exact .inr ⟨(hab.opened hopen).2.2 hclose, final⟩

theorem Intact.delivers {a b : Connection} (h : a.Intact) (hab : Delivers a b) : b.Intact := by
  obtain ⟨bytes, hsent, hprefix, hopen, hstop, hcount⟩ := hab.delivered
  refine ⟨?_, ?_, ?_, ?_, ?_⟩
  · rw [hab.queued]
    exact h.fits
  · intro hb
    rw [hab.queued, ← h.stream (hab.opened hb).1, hsent, List.append_assoc, ← hopen hb]
  · intro hb
    exact (h.answered (hab.opened hb).1).delivers hab hb
  · rw [hab.queued, hsent]
    cases ha : a.closed with
    | true =>
        rw [hstop ha, List.append_nil]
        exact h.sent
    | false =>
        rw [← h.stream ha]
        exact (List.prefix_append_right_inj _).mpr hprefix
  · rw [hcount, hsent, h.counted, List.length_append]

/-- Closing keeps the part of the stream that has been sent. -/
theorem Intact.markClosed {conn : Connection} (h : conn.Intact) (cause : CloseCause) :
    (conn.markClosed cause).Intact where
  fits := h.fits
  stream hopen := by cases hopen
  answered hopen := by cases hopen
  sent := h.sent
  counted := h.counted

theorem Intact.uncounted {conn : Connection} (h : conn.Intact) {calls : List MetricCall}
    (hcalls : Uncounted calls) : { conn with calls := conn.calls ++ calls }.Intact where
  fits := h.fits
  stream := h.stream
  answered := h.answered
  sent := h.sent
  counted := by simpa [hcalls.bytesSent] using h.counted

theorem flatMap_frameOf_append_singleton (queued : List Bytes) (response : Bytes) :
    (queued ++ [response]).flatMap frameOf = queued.flatMap frameOf ++ frameOf response := by
  simp

/-- The stream, the sent part and the count after a response has been queued; the
answers are the caller's concern. -/
theorem Intact.withResponse {conn : Connection} (h : conn.Intact) {response : Bytes}
    (hfits : response.length ≤ maxFrameSize) {paused : Bool} {calls : List MetricCall}
    (hcalls : Uncounted calls) {executed : List (Bytes × Bytes)} {closing : Bool}
    (hanswered : conn.closed = false →
      ({ conn.withResponse response paused calls with
        closeAfterWrite := closing
        trace.executed := executed } : Connection).Answered) :
    ({ conn.withResponse response paused calls with
        closeAfterWrite := closing
        trace.executed := executed } : Connection).Intact where
  fits r hr := by
    obtain hr | hr := List.mem_append.mp hr
    · exact h.fits r hr
    · rw [List.mem_singleton.mp hr]
      exact hfits
  stream hopen := by
    have hstream := h.stream hopen
    simp only [pending, Connection.withResponse, OutputBuffer.data_append,
      flatMap_frameOf_append_singleton] at hstream ⊢
    rw [← hstream, List.append_assoc]
  answered := hanswered
  sent := by
    simp only [Connection.withResponse, flatMap_frameOf_append_singleton]
    exact h.sent.trans (List.prefix_append ..)
  counted := by simpa [Connection.withResponse, hcalls.bytesSent] using h.counted

theorem Intact.processPayload {conn : Connection} (h : conn.Intact)
    (hclose : conn.closeAfterWrite = false) (o : NetworkOptions) (ambient : Ambient Q)
    (store : Store Q) (payload : Bytes) :
    (conn.processPayload o ambient store payload).2.1.Intact ∧
      ((conn.processPayload o ambient store payload).1 = true →
        (conn.processPayload o ambient store payload).2.1.closeAfterWrite = false) := by
  rcases processPayload_cases o ambient store conn payload with
    ⟨cause, calls, -, hcalls, heq⟩ | ⟨paused, before, calls, hfits, -, hbefore, hcalls, heq⟩
  · rw [heq]
    refine ⟨⟨h.fits, ?_, ?_, h.sent, ?_⟩, by simp⟩
    · intro hopen
      cases hopen
    · intro hopen
      cases hopen
    · simpa [Connection.markClosed, withExecuted, hcalls.bytesSent] using h.counted
  · rw [heq]
    refine ⟨?_, by simp [hclose]⟩
    refine Intact.withResponse (h.uncounted hbefore) hfits hcalls fun hopen => ?_
    -- nothing final has been queued yet, as the connection does not close after writing
    have hqueued := (h.answered hopen).resolve_right (by simp [hclose])
    left
    simp [Connection.withResponse, withExecuted, hqueued]

/-- A batch keeps the stream intact; by induction on its payloads. -/
theorem Intact.processPayloads (o : NetworkOptions) (payloads : List Bytes)
    (ambient : Nat → Ambient Q) (store : Store Q) {conn : Connection} (h : conn.Intact)
    (hclose : conn.closeAfterWrite = false) :
    (conn.processPayloads o ambient store payloads).1.Intact := by
  induction payloads generalizing ambient store conn with
  | nil => exact h
  | cons payload rest ih =>
      obtain ⟨hintact, hnext⟩ := h.processPayload hclose o (ambient 0) store payload
      unfold Connection.processPayloads
      rcases hresult : conn.processPayload o (ambient 0) store payload with
        ⟨continues, conn', store'⟩
      rw [hresult] at hintact hnext
      cases continues with
      | false => exact hintact
      | true => exact ih _ store' hintact (hnext rfl)

/-- A final error response keeps the stream intact, once the connection is to close after
it. -/
theorem Intact.finalResponse {conn : Connection} (h : conn.Intact)
    (hclose : conn.closeAfterWrite = false) (o : NetworkOptions) {final : Bytes}
    (hfinal : final = protocolError ∨ final = requestBufferTooLarge) {queued : Bool}
    {after : Connection} (heq : conn.queueResponse o final = (queued, after)) :
    (if queued then { after with closeAfterWrite := true } else after).Intact := by
  rcases queueResponse_cases o conn final with
    ⟨cause, calls, -, hcalls, hrefused⟩ | ⟨paused, calls, hfits, -, hcalls, hqueued⟩
  · rw [hrefused] at heq
    cases heq
    exact (h.uncounted hcalls).markClosed cause
  · rw [hqueued] at heq
    cases heq
    refine h.withResponse hfits hcalls fun hopen => ?_
    have hanswers := (h.answered hopen).resolve_right (by simp [hclose])
    right
    refine ⟨rfl, final, hfinal, ?_⟩
    simp [Connection.withResponse, hanswers]

theorem Intact.receiveBytes {conn : Connection} (h : conn.Intact)
    (hclose : conn.closeAfterWrite = false) (o : NetworkOptions) (ambient : Nat → Ambient Q)
    (store : Store Q) (bytes : Bytes) :
    (conn.receiveBytes o ambient store bytes).1.Intact := by
  -- what has been received and what of it waits for the rest of a frame does not matter
  have hstate (call : MetricCall) (hcall : call.bytesSent = 0) :
      (conn.withInput bytes call).Intact := by
    have hcounted : bytesSent [.addBytesReceived bytes.length, call] = 0 := by
      change 0 + (call.bytesSent + 0) = 0
      omega
    exact ⟨h.fits, h.stream, h.answered, h.sent, by simpa [withInput, hcounted] using h.counted⟩
  cases hrejected : (frameParser.drain (conn.readBuffer ++ bytes)).rejected with
  | true =>
      rw [receiveBytes_rejected hrejected]
      exact (hstate .onProtocolError rfl).finalResponse hclose o (.inl rfl) rfl
  | false =>
      rw [receiveBytes_accepted hrejected]
      exact Intact.processPayloads o _ ambient store (hstate _ rfl) hclose

theorem Intact.handleClientRead {conn : Connection} (h : conn.Intact) (o : NetworkOptions)
    (input : IoInput Q) (store : Store Q) :
    (conn.handleClientRead o input store).1.Intact := by
  unfold Connection.handleClientRead
  by_cases hrefused : (conn.closed || conn.readPaused || conn.closeAfterWrite) = true
  · rw [if_pos hrefused]
    exact h
  rw [if_neg hrefused]
  have hclose : conn.closeAfterWrite = false := by
    simp only [Bool.or_eq_true, not_or, Bool.not_eq_true] at hrefused
    exact hrefused.2
  split
  · unfold rejectOversizedReadBuffer
    generalize hresult : conn.queueResponse o _ = result
    have hfinal := h.finalResponse hclose o (.inr rfl) hresult
    obtain ⟨_ | _, after⟩ := result
    · exact hfinal.markClosed .oversized
    · exact hfinal
  cases input.recv.result with
  | bytes ready =>
      simp only
      split
      · unfold receiveEnd
        simp only
        exact iteInduction
          (fun _ => ⟨h.fits, nofun, nofun, h.sent, h.counted⟩)
          (fun _ => ⟨h.fits, nofun, nofun, h.sent, h.counted⟩)
      · exact h.receiveBytes hclose o input.ambient store _
  | wouldBlock => exact h
  | failed => exact h.markClosed .recvFailed

theorem Intact.handleEvent {conn : Connection} (h : conn.Intact) (o : NetworkOptions)
    (state : ServerState) (events : IoEvent) (input : IoInput Q) (store : Store Q) :
    (conn.handleEvent o state events input store).1.1.Intact := by
  rw [handleEvent_cases]
  split
  · exact h.markClosed .errorEvent
  split
  · exact (h.handleClientRead o input store).delivers (delivers_afterRead o events input _)
  · exact h.delivers (delivers_afterRead o events input conn)

end Connection

namespace Session

theorem intact_step (o : NetworkOptions) {s : Session Q} (h : s.conn.Intact)
    (event : SessionEvent Q) : (s.step o event).conn.Intact := by
  rcases step_conn o s event with heq | ⟨reason, heq⟩ | ⟨registered, heq⟩ |
    ⟨events, input, registered, -, heq⟩
  · rw [heq]
    exact h
  · rw [heq]
    exact h.markClosed reason.cause
  · rw [heq]
    exact h.delivers ((Connection.delivers_beginDrain o s.conn).trans (.register _ registered))
  · rw [heq]
    exact (h.handleEvent o s.phase events input s.store).delivers (.register _ registered)

theorem intact_run (o : NetworkOptions) (fd : Int) (store : Store Q)
    (events : List (SessionEvent Q)) : ((start fd store).run o events).conn.Intact :=
  (machine o).run_invariant (I := fun s => s.conn.Intact)
    (fun _ hs event _ => intact_step o hs event) (Connection.intact_accepted fd)

end Session

end TinyKv
