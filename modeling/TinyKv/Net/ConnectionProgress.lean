import TinyKv.Net.ConnectionDialogue
import TinyKv.Net.FinalResponse

/-!
# The progress of a connection

A step of a session delivers, reads, or ends the serving of requests. Reading takes bytes
off the socket, and the serving ends once: what a connection has to do for the requests that
have arrived comes to an end.
-/

namespace TinyKv

open Foundation FrameCodec

variable {Q : ExpirationQueue}

namespace Connection

/-- What a step makes of a connection: it delivers, it reads some bytes, it stops serving, or
it is closed. -/
inductive Eases (before after : Connection) : Prop where
  | delivers (h : Delivers before after)
  | reads (hserving : before.Serving) (hlonger : before.stream.length < after.stream.length)
  | stops (hserving : before.Serving) (hstopped : ¬ after.Serving)
  | closes (hclosed : after.closed = true) (hpending : after.pending = [])
      (hsent : after.trace.sent = before.trace.sent)

theorem Eases.trans_delivers {a b c : Connection} (hab : Eases a b) (hbc : Delivers b c) :
    Eases a c := by
  cases hab with
  | delivers h => exact .delivers (h.trans hbc)
  | reads hserving hlonger =>
      apply Eases.reads hserving
      rw [hbc.stream]
      exact hlonger
  | stops hserving hstopped => exact .stops hserving (hbc.stopped hstopped)
  | closes hclosed hpending hsent =>
      obtain ⟨bytes, hbytes, -, -, hnil, -⟩ := hbc.delivered
      apply Eases.closes (hbc.closed hclosed) (hbc.emptied hpending)
      rw [hbytes, hnil hclosed, List.append_nil, hsent]

/-- Serving does not begin again. -/
theorem Eases.stopped {a b : Connection} (hab : Eases a b) (h : ¬ a.Serving) : ¬ b.Serving := by
  cases hab with
  | delivers hdelivers => exact hdelivers.stopped h
  | reads hserving => exact absurd hserving h
  | stops hserving hstopped => exact hstopped
  | closes hclosed =>
      rintro ⟨hopen, -⟩
      rw [hclosed] at hopen
      cases hopen

/-- A step that neither reads nor ends the serving brings the pending bytes nearer to the
client, or leaves the connection as it is. -/
theorem Eases.outcome {a b : Connection} (hab : Eases a b) (h : a.Flushing)
    (hstream : b.stream = a.stream) (hserving : a.Serving → b.Serving)
    {bytes : Bytes} (hsent : b.trace.sent = a.trace.sent ++ bytes) :
    2 * b.pending.length + bytes.length < 2 * a.pending.length ∨
      b.pending = a.pending ∧ bytes = [] ∧ b.closed = a.closed := by
  -- a connection that is closed now and was not has dropped what was pending
  have hcloses (hclosed : b.closed = true) (hnil : bytes = []) (hpending : b.pending = []) :
      2 * b.pending.length + bytes.length < 2 * a.pending.length ∨
        b.pending = a.pending ∧ bytes = [] ∧ b.closed = a.closed := by
    rw [hpending, hnil]
    cases hopen : a.closed with
    | true => exact .inr ⟨(h.closed hopen).symm, rfl, hclosed⟩
    | false =>
        left
        have hclose : a.closeAfterWrite = true := by
          by_contra hserve
          obtain ⟨hstill, -⟩ := hserving ⟨hopen, Bool.eq_false_iff.mpr hserve⟩
          rw [hclosed] at hstill
          cases hstill
        have hpos := List.length_pos_iff.mpr (h.busy hopen hclose)
        simp only [List.length_nil]
        omega
  cases hab with
  | delivers hdelivers =>
      obtain ⟨taken, htaken, hprefix, hrest, hstop, -⟩ := hdelivers.delivered
      obtain rfl : taken = bytes := List.append_cancel_left (htaken.symm.trans hsent)
      cases hclosed : b.closed with
      | false =>
          have hpending := hrest hclosed
          cases taken with
          | nil =>
              rw [(hdelivers.opened hclosed).1]
              exact .inr ⟨hpending.symm, rfl, rfl⟩
          | cons byte more =>
              left
              have hlength := congrArg List.length hpending
              rw [List.length_append, List.length_cons] at hlength
              rw [List.length_cons]
              omega
      | true =>
          rw [← hclosed]
          cases taken with
          | nil =>
              refine hcloses hclosed rfl ?_
              cases hopen : a.closed with
              | true => exact hdelivers.emptied (h.closed hopen)
              | false => exact (hdelivers.closing hopen hclosed).1
          | cons byte more =>
              left
              have hopen : a.closed = false := by
                by_contra hbefore
                cases hstop (Bool.not_eq_false _ ▸ hbefore)
              have hlength := hprefix.length_le
              rw [(hdelivers.closing hopen hclosed).1, List.length_nil]
              rw [List.length_cons] at hlength ⊢
              omega
  | reads _ hlonger =>
      rw [hstream] at hlonger
      exact absurd hlonger (Nat.lt_irrefl _)
  | stops hserve hstopped => exact absurd (hserving hserve) hstopped
  | closes hclosed hpending hsame =>
      apply hcloses hclosed _ hpending
      exact List.append_right_eq_self.mp (hsent.symm.trans hsame)

/-! ### The handlers -/

theorem eases_markClosed (conn : Connection) (cause : CloseCause) :
    Eases conn (conn.markClosed cause) := .closes rfl rfl rfl

/-- Unless the connection is not to read or nothing has arrived, the read handler reads or
stops serving. -/
theorem handleClientRead_reads {conn : Connection} (hreading : conn.Reading) (o : NetworkOptions)
    {input : IoInput Q} (hrecv : input.recv.result ≠ .wouldBlock) (store : Store Q) :
    conn.stream.length < (conn.handleClientRead o input store).1.stream.length ∨
      ¬ (conn.handleClientRead o input store).1.Serving := by
  have houtcome := handleClientRead_outcome hreading o input store
  generalize conn.handleClientRead o input store = result at houtcome ⊢
  cases houtcome with
  | oversized hfull => exact .inr (not_serving_rejectOversizedReadBuffer o conn)
  | ended hroom _ hnil =>
      rw [receiveEnd_eq]
      exact .inr (not_serving_markClosed _ _)
  | @bytes ready hroom _ hnil =>
      have hreceived := received_receiveBytes o input.ambient store hreading.opened
        hreading.serving (ready.take (conn.readSize o))
      left
      rw [stream, stream, hreceived.received, List.flatten_append, List.length_append]
      have hpos := List.length_pos_iff.mpr hnil
      simpa using hpos
  | wouldBlock hblock => exact absurd hblock hrecv
  | failed _ => exact .inr (not_serving_markClosed _ _)

/-- The read handler leaves the connection as it is, or a serving connection reads or stops
serving. -/
theorem handleClientRead_progress (o : NetworkOptions) (input : IoInput Q) (store : Store Q)
    (conn : Connection) : (conn.handleClientRead o input store).1 = conn ∨
      conn.Serving ∧ (conn.stream.length < (conn.handleClientRead o input store).1.stream.length ∨
        ¬ (conn.handleClientRead o input store).1.Serving) := by
  by_cases hreading : conn.Reading
  swap
  · exact .inl (by rw [handleClientRead_refused hreading])
  by_cases hblock : input.recv.result = .wouldBlock
  · have houtcome := handleClientRead_outcome hreading o input store
    generalize conn.handleClientRead o input store = result at houtcome ⊢
    cases houtcome with
    | wouldBlock _ => exact .inl rfl
    | oversized hfull =>
        exact .inr ⟨⟨hreading.opened, hreading.serving⟩,
          .inr (not_serving_rejectOversizedReadBuffer o conn)⟩
    | ended _ hrecv => rw [hblock] at hrecv; cases hrecv
    | bytes _ hrecv => rw [hblock] at hrecv; cases hrecv
    | failed hrecv => rw [hblock] at hrecv; cases hrecv
  · exact .inr ⟨⟨hreading.opened, hreading.serving⟩, handleClientRead_reads hreading o hblock store⟩

theorem eases_handleClientRead (o : NetworkOptions) (input : IoInput Q) (store : Store Q)
    (conn : Connection) : Eases conn (conn.handleClientRead o input store).1 := by
  rcases handleClientRead_progress o input store conn with hsame | ⟨hserving, hlonger | hstopped⟩
  · rw [hsame]
    exact .delivers (.refl conn)
  · exact .reads hserving hlonger
  · exact .stops hserving hstopped

theorem eases_handleEvent (o : NetworkOptions) (state : ServerState) (events : IoEvent)
    (input : IoInput Q) (store : Store Q) (conn : Connection) :
    Eases conn (conn.handleEvent o state events input store).1.1 := by
  rw [handleEvent_cases]
  split
  · exact eases_markClosed conn .errorEvent
  split
  · exact (eases_handleClientRead o input store conn).trans_delivers
      (delivers_afterRead o events input _)
  · exact .delivers (delivers_afterRead o events input conn)

theorem sent_sendBytes (o : NetworkOptions) (conn : Connection) {bytes : Nat}
    (h : bytes ≤ conn.writeBuffer.size) :
    (conn.sendBytes o bytes h).trace.sent = conn.trace.sent ++ conn.pending.take bytes := by
  unfold sendBytes
  simp only
  split
  · simp [markClosed]
  · rw [updateReadBackPressure_trace]

/-- The write handler sends some of the pending bytes, or closes the connection. -/
theorem handleClientWrite_writes {conn : Connection} (hopen : conn.closed = false)
    (hpending : conn.pending ≠ []) (o : NetworkOptions) {input : IoInput Q}
    (hsend : input.send.result ≠ .wouldBlock) :
    (conn.handleClientWrite o input).closed = true ∨
      conn.trace.sent.length < (conn.handleClientWrite o input).trace.sent.length := by
  have hempty : conn.writeBuffer.isEmpty = false := by
    by_contra hempty
    exact hpending ((OutputBuffer.isEmpty_iff _).mp (Bool.not_eq_false _ ▸ hempty))
  unfold handleClientWrite
  simp only [hopen, hempty, Bool.false_eq_true, if_false]
  cases hresult : input.send.result with
  | wouldBlock => exact absurd hresult hsend
  | failed => exact .inl rfl
  | accepted bytes =>
      simp only
      split
      · next hsome =>
        right
        have hsize : min bytes (min conn.writeBuffer.size o.maxWriteBytesPerEvent) ≤
            conn.writeBuffer.size := Nat.le_trans (Nat.min_le_right ..) (Nat.min_le_left ..)
        rw [sent_sendBytes o conn hsize, List.length_append, List.length_take,
          ← OutputBuffer.size_eq]
        omega
      · exact .inl rfl

/-- The write branch, before the others. -/
theorem afterRead_writes {conn : Connection} (hopen : conn.closed = false)
    (hpending : conn.pending ≠ []) (o : NetworkOptions) {events : IoEvent}
    (hwrite : events.write = true) {input : IoInput Q}
    (hsend : input.send.result ≠ .wouldBlock) :
    (conn.afterRead o events input).1.closed = true ∨
      conn.trace.sent.length < (conn.afterRead o events input).1.trace.sent.length := by
  have hrest : conn.afterRead o events input =
      (conn.handleClientWrite o input).afterRead o { events with write := false } input := by
    simp [afterRead, hopen, hwrite]
  have hdelivers := delivers_afterRead o { events with write := false } input
    (conn.handleClientWrite o input)
  rw [hrest]
  rcases handleClientWrite_writes hopen hpending o hsend with hclosed | hlonger
  · exact .inl (hdelivers.closed hclosed)
  · right
    obtain ⟨bytes, hsent, -⟩ := hdelivers.delivered
    rw [hsent, List.length_append]
    omega

/-- A connection has moved on: it has read, sent, stopped serving or been closed. -/
inductive Advances (before after : Connection) : Prop where
  | read (hlonger : before.stream.length < after.stream.length)
  | stopped (hserving : before.Serving) (hstopped : ¬ after.Serving)
  | closed (hopen : before.closed = false) (hclosed : after.closed = true)
  | sent (hlonger : before.trace.sent.length < after.trace.sent.length)

theorem Advances.delivers {a b c : Connection} (hab : Advances a b) (hbc : Delivers b c) :
    Advances a c := by
  cases hab with
  | read hlonger =>
      apply Advances.read
      rw [hbc.stream]
      exact hlonger
  | stopped hserving hstopped => exact .stopped hserving (hbc.stopped hstopped)
  | closed hopen hclosed => exact .closed hopen (hbc.closed hclosed)
  | sent hlonger =>
      obtain ⟨bytes, hsent, -⟩ := hbc.delivered
      apply Advances.sent
      rw [hsent, List.length_append]
      omega

/-- A connection to which a ready event brings the chance to write what is pending. -/
theorem advances_of_write {conn : Connection} (hopen : conn.closed = false)
    (hpending : conn.pending ≠ []) (o : NetworkOptions) (state : ServerState) {events : IoEvent}
    (hwrite : events.write = true) {input : IoInput Q} (hsend : input.send.result ≠ .wouldBlock)
    (store : Store Q) : Advances conn (conn.handleEvent o state events input store).1.1 := by
  have hwrites : Advances conn (conn.afterRead o events input).1 := by
    rcases afterRead_writes hopen hpending o hwrite hsend with hclosed | hlonger
    · exact .closed hopen hclosed
    · exact .sent hlonger
  rw [handleEvent_cases]
  split
  · exact .closed hopen rfl
  split
  · rcases handleClientRead_progress o input store conn with hsame | ⟨hserving, hlonger | hstopped⟩
    · rw [hsame]
      exact hwrites
    · exact (Advances.read hlonger).delivers (delivers_afterRead o events input _)
    · exact (Advances.stopped hserving hstopped).delivers (delivers_afterRead o events input _)
  · exact hwrites

/-- A connection to which a ready event brings the chance to read what has arrived. -/
theorem advances_of_read {conn : Connection} (hreading : conn.Reading) (o : NetworkOptions)
    {events : IoEvent} (hread : events.read = true) {input : IoInput Q}
    (hrecv : input.recv.result ≠ .wouldBlock) (store : Store Q) :
    Advances conn (conn.handleEvent o .running events input store).1.1 := by
  rw [handleEvent_cases]
  split
  · exact .closed hreading.opened rfl
  rw [if_pos ⟨rfl, hread⟩]
  apply Advances.delivers _ (delivers_afterRead o events input _)
  rcases handleClientRead_reads hreading o hrecv store with hlonger | hstopped
  · exact .read hlonger
  · exact .stopped ⟨hreading.opened, hreading.serving⟩ hstopped

end Connection

namespace Session

variable {s : Session Q}

theorem eases_step (o : NetworkOptions) (s : Session Q) (event : SessionEvent Q) :
    Connection.Eases s.conn (s.step o event).conn := by
  rcases s.step_conn o event with
    hsame | ⟨reason, hclosed⟩ | ⟨registered, hdrain⟩ | ⟨events, input, registered, -, hready⟩
  · rw [hsame]
    exact .delivers (.refl s.conn)
  · rw [hclosed]
    exact Connection.eases_markClosed s.conn reason.cause
  · rw [hdrain]
    exact .delivers ((Connection.delivers_beginDrain o s.conn).trans (.register _ registered))
  · rw [hready]
    exact (Connection.eases_handleEvent o s.phase events input s.store s.conn).trans_delivers
      (.register _ registered)

/-- A session that has stopped stays so. -/
theorem step_stopped (o : NetworkOptions) (h : s.phase = .stopped) (event : SessionEvent Q) :
    (s.step o event).phase = .stopped := by
  cases event with
  | ready events input modityOk => simp [step, h]
  | beginDrain modityOk => simp [step, h]
  | forceClose reason => simp [step, h]
  | abort => rfl

/-- A session runs and serves, or drains and does not, or has stopped. -/
inductive Phased (s : Session Q) : Prop where
  | running (hphase : s.phase = .running)
  | draining (hphase : s.phase = .draining) (hstopped : ¬ s.conn.Serving)
  | stopped (hphase : s.phase = .stopped)

theorem not_serving_beginDrain (o : NetworkOptions) (conn : Connection) :
    ¬ (conn.beginDrain o).1.Serving := by
  unfold Connection.beginDrain
  simp only
  split
  · exact Connection.not_serving_markClosed _ _
  · exact (Connection.delivers_refreshInterest o _).stopped (Connection.not_serving rfl)

/-- A step keeps the phase, stops, or begins to drain. -/
theorem step_phase (o : NetworkOptions) (s : Session Q) (event : SessionEvent Q) :
    (s.step o event).phase = s.phase ∨ (s.step o event).phase = .stopped ∨
      (s.step o event).phase = .draining ∧ ¬ (s.step o event).conn.Serving := by
  cases event with
  | ready events input modityOk =>
      simp only [step]
      split
      · exact .inl rfl
      · simp only [refreshed]
        split
        · exact .inl rfl
        · exact .inr (.inl rfl)
  | beginDrain modityOk =>
      by_cases hrunning : s.phase = .running
      · obtain ⟨registered, heq⟩ := step_beginDrain hrunning o modityOk
        have hstopped : ¬ (s.step o (.beginDrain modityOk)).conn.Serving := by
          rw [heq]
          exact not_serving_beginDrain o s.conn
        right
        simp only [step, if_pos hrunning, refreshed] at hstopped ⊢
        split
        · exact .inr ⟨rfl, hstopped⟩
        · exact .inl rfl
      · exact .inl (by simp [step, hrunning])
  | forceClose reason =>
      simp only [step]
      split
      · exact .inl rfl
      · exact .inr (.inl rfl)
  | abort => exact .inr (.inl rfl)

theorem phased_step {o : NetworkOptions} (h : s.Phased) (event : SessionEvent Q) :
    (s.step o event).Phased := by
  rcases s.step_phase o event with hsame | hstopped | ⟨hdraining, hserving⟩
  · cases h with
    | running hphase => exact .running (hsame.trans hphase)
    | draining hphase hserving =>
        exact .draining (hsame.trans hphase) ((eases_step o s event).stopped hserving)
    | stopped hphase => exact .stopped (hsame.trans hphase)
  · exact .stopped hstopped
  · exact .draining hdraining hserving

end Session

end TinyKv
