import TinyKv.Net.Session

/-!
# The requests of a connection

A batch of payloads is executed in order up to the first QUIT, unless a response is
refused. What one `recv` result leads to is decided by draining the read buffer and the
new bytes: either a batch, or the protocol error.
-/

namespace TinyKv

open Foundation FrameCodec

variable {Q : ExpirationQueue}

namespace Connection

/-- The payloads up to and including the first QUIT. -/
def throughQuit : List Bytes → List Bytes
  | [] => []
  | payload :: rest => if isQuit payload then [payload] else payload :: throughQuit rest

theorem throughQuit_append_of_any {payloads : List Bytes} (h : payloads.any isQuit = true)
    (more : List Bytes) : throughQuit (payloads ++ more) = throughQuit payloads := by
  induction payloads with
  | nil => cases h
  | cons payload rest ih =>
      cases hquit : isQuit payload with
      | true => simp [throughQuit, hquit]
      | false =>
          have hrest : rest.any isQuit = true := by simpa [hquit] using h
          simp [throughQuit, hquit, ih hrest]

theorem throughQuit_append {payloads : List Bytes} (h : payloads.any isQuit = false)
    (more : List Bytes) : throughQuit (payloads ++ more) = payloads ++ throughQuit more := by
  induction payloads with
  | nil => rfl
  | cons payload rest ih =>
      simp only [List.any_cons, Bool.or_eq_false_iff] at h
      simp [throughQuit, h.1, ih h.2]

theorem throughQuit_of_not_any {payloads : List Bytes} (h : payloads.any isQuit = false) :
    throughQuit payloads = payloads := by
  simpa [throughQuit] using throughQuit_append h []

/-- The payloads passed to `ProcessPayload`. -/
def executedPayloads (conn : Connection) : List Bytes := conn.trace.executed.map Prod.fst

/-- A response has been refused: the connection is closed for its hard limit or for a
response without a frame. -/
def Refused (conn : Connection) : Prop :=
  conn.closed = true ∧ (.slowClient ∈ conn.trace.causes ∨ .unencodable ∈ conn.trace.causes)

theorem not_refused {conn : Connection} (h : conn.closed = false) : ¬ conn.Refused := by
  rintro ⟨hclosed, -⟩
  rw [h] at hclosed
  cases hclosed

/-- The causes a connection is closed with for a limit. -/
def ofLimit : CloseCause → Bool
  | .slowClient | .unencodable | .oversized => true
  | _ => false

/-- The causes a connection can be closed with while it is read. -/
def ofReading : CloseCause → Bool
  | .slowClient | .unencodable | .oversized | .endOfInput | .recvFailed => true
  | _ => false

/-- The causes of `after` are those of `before`, and such as satisfy `p`. -/
def NewCauses (p : CloseCause → Bool) (before after : Connection) : Prop :=
  ∀ cause ∈ after.trace.causes, cause ∈ before.trace.causes ∨ p cause = true

theorem NewCauses.refl (p : CloseCause → Bool) (conn : Connection) : NewCauses p conn conn :=
  fun _ => .inl

theorem NewCauses.trans {p : CloseCause → Bool} {a b c : Connection} (hab : NewCauses p a b)
    (hbc : NewCauses p b c) : NewCauses p a c := by
  intro cause hcause
  obtain h | h := hbc cause hcause
  · exact hab cause h
  · exact .inr h

theorem NewCauses.reading {a b : Connection} (h : NewCauses ofLimit a b) :
    NewCauses ofReading a b := by
  intro cause hcause
  apply (h cause hcause).imp id
  intro hlimit
  cases cause <;> first | rfl | cases hlimit

theorem newCauses_markClosed {p : CloseCause → Bool} (conn : Connection) {cause : CloseCause}
    (h : p cause = true) : NewCauses p conn (conn.markClosed cause) := by
  intro c hc
  obtain hc | hc := List.mem_append.mp hc
  · exact .inl hc
  · rw [List.mem_singleton.mp hc]
    exact .inr h

/-- What processing a batch of payloads leads to. -/
structure Served (before after : Connection) (payloads : List Bytes) : Prop where
  received : after.trace.received = before.trace.received
  hungUp : after.trace.hungUp = before.trace.hungUp
  causes : before.trace.causes <+: after.trace.causes
  newCauses : NewCauses ofLimit before after
  calls : ∃ more, Uncounted more ∧ after.calls = before.calls ++ more
  outcome : after.Refused ∨
    (after.closed = false ∧ after.trace.causes = before.trace.causes ∧
      after.readBuffer = before.readBuffer ∧
      after.executedPayloads = before.executedPayloads ++ throughQuit payloads ∧
      after.closeAfterWrite = payloads.any isQuit)

theorem Refusal.mem_causes {o : NetworkOptions} {conn : Connection} {response : Bytes}
    {cause : CloseCause} (h : Refusal o conn response cause) (before : List CloseCause) :
    .slowClient ∈ before ++ [cause] ∨ .unencodable ∈ before ++ [cause] := by
  rcases h with ⟨rfl, -⟩ | ⟨rfl, -⟩ <;> simp

theorem Refusal.ofLimit {o : NetworkOptions} {conn : Connection} {response : Bytes}
    {cause : CloseCause} (h : Refusal o conn response cause) : ofLimit cause = true := by
  rcases h with ⟨rfl, -⟩ | ⟨rfl, -⟩ <;> rfl

theorem served_processPayload (o : NetworkOptions) (ambient : Ambient Q) (store : Store Q)
    {conn : Connection} (hopen : conn.closed = false) (hserving : conn.closeAfterWrite = false)
    (payload : Bytes) :
    Served conn (conn.processPayload o ambient store payload).2.1 [payload] ∧
      ((conn.processPayload o ambient store payload).1 = true ↔
        (conn.processPayload o ambient store payload).2.1.closed = false ∧
          isQuit payload = false) := by
  rcases processPayload_cases o ambient store conn payload with
    ⟨cause, calls, hrefusal, hcalls, heq⟩ | ⟨paused, before, calls, -, -, hbefore, hcalls, heq⟩
  · rw [heq]
    refine ⟨⟨rfl, rfl, List.prefix_append .., newCauses_markClosed _ hrefusal.ofLimit,
      ⟨calls, hcalls, rfl⟩, .inl ⟨rfl, hrefusal.mem_causes _⟩⟩, by simp [markClosed]⟩
  · rw [heq]
    refine ⟨⟨rfl, rfl, List.prefix_rfl, .refl _ conn, ⟨before ++ calls, hbefore.append hcalls, ?_⟩,
      .inr ⟨hopen, rfl, rfl, ?_, ?_⟩⟩, ?_⟩
    · simp [withResponse, withExecuted]
    · cases hquit : isQuit payload <;>
        simp [executedPayloads, withResponse, withExecuted, throughQuit, hquit]
    · simp [hserving]
    · simp [withResponse, withExecuted, hopen]

/-- A batch of payloads; by induction on it, as a payload that is not the last one of the
batch leaves the connection open and serving. -/
theorem served_processPayloads (o : NetworkOptions) (payloads : List Bytes)
    (ambient : Nat → Ambient Q) (store : Store Q) {conn : Connection}
    (hopen : conn.closed = false) (hserving : conn.closeAfterWrite = false) :
    Served conn (conn.processPayloads o ambient store payloads).1 payloads := by
  induction payloads generalizing ambient store conn with
  | nil =>
      exact ⟨rfl, rfl, List.prefix_rfl, .refl _ conn,
        ⟨[], by simp [Uncounted], by simp [processPayloads]⟩,
        .inr ⟨hopen, rfl, rfl, by simp [processPayloads, throughQuit], hserving⟩⟩
  | cons payload rest ih =>
      obtain ⟨hserved, hnext⟩ :=
        served_processPayload o (ambient 0) store hopen hserving payload
      unfold processPayloads
      generalize conn.processPayload o (ambient 0) store payload = result at hserved hnext ⊢
      obtain ⟨continues, mid, store'⟩ := result
      dsimp only at hserved hnext
      obtain ⟨more, hmore, hcalls⟩ := hserved.calls
      cases continues with
      | false =>
          refine ⟨hserved.received, hserved.hungUp, hserved.causes, hserved.newCauses,
            hserved.calls, hserved.outcome.imp id ?_⟩
          rintro ⟨hmid, hcauses, hbuffer, hexec, hclose⟩
          have hquit : isQuit payload = true := by
            by_contra hquit
            exact absurd (hnext.mpr ⟨hmid, Bool.eq_false_iff.mpr hquit⟩) (by simp)
          exact ⟨hmid, hcauses, hbuffer, by simpa [throughQuit, hquit] using hexec,
            by simpa [hquit] using hclose⟩
      | true =>
          obtain ⟨hmid, hquit⟩ := hnext.mp rfl
          obtain ⟨-, hcauses, hbuffer, hexec, hclose⟩ :=
            hserved.outcome.resolve_left (not_refused hmid)
          have hrest := ih (fun i => ambient (i + 1)) store' hmid
            (by simpa [hquit] using hclose)
          obtain ⟨more', hmore', hcalls'⟩ := hrest.calls
          refine ⟨hrest.received.trans hserved.received, hrest.hungUp.trans hserved.hungUp,
            hserved.causes.trans hrest.causes, hserved.newCauses.trans hrest.newCauses,
            ⟨more ++ more', hmore.append hmore', by rw [hcalls', hcalls, List.append_assoc]⟩,
            hrest.outcome.imp id ?_⟩
          rintro ⟨hafter, hcauses', hbuffer', hexec', hclose'⟩
          refine ⟨hafter, hcauses'.trans hcauses, hbuffer'.trans hbuffer, ?_, ?_⟩
          · rw [hexec', hexec]
            simp [throughQuit, hquit]
          · simpa [hquit] using hclose'

/-- What one `recv` result leads to. -/
structure Received (before after : Connection) (bytes : Bytes) : Prop where
  received : after.trace.received = before.trace.received ++ [bytes]
  hungUp : after.trace.hungUp = before.trace.hungUp
  causes : before.trace.causes <+: after.trace.causes
  newCauses : NewCauses ofLimit before after
  calls : ∃ more, after.calls = before.calls ++ more ∧ ∀ n, .addFramesReceived n ∈ more ↔
    (frameParser.drain (before.readBuffer ++ bytes)).rejected = false ∧
      n = (frameParser.drain (before.readBuffer ++ bytes)).items.length
  outcome : after.Refused ∨
    (after.closed = false ∧ after.trace.causes = before.trace.causes ∧
      after.readBuffer = (frameParser.drain (before.readBuffer ++ bytes)).rest ∧
      if (frameParser.drain (before.readBuffer ++ bytes)).rejected then
        after.executedPayloads = before.executedPayloads ∧ after.closeAfterWrite = true
      else
        after.executedPayloads = before.executedPayloads ++
            throughQuit (frameParser.drain (before.readBuffer ++ bytes)).items ∧
          after.closeAfterWrite =
            (frameParser.drain (before.readBuffer ++ bytes)).items.any isQuit)

/-- A final response answers no executed payload. -/
theorem executedPayloads_finalResponse (o : NetworkOptions) (conn : Connection)
    (response : Bytes) :
    (conn.finalResponse o response).executedPayloads = conn.executedPayloads := by
  rcases finalResponse_cases o conn response with
    ⟨cause, calls, -, -, heq⟩ | ⟨paused, calls, -, -, heq⟩
  · rw [heq]
    rfl
  · rw [heq]
    rfl

theorem received_receiveBytes (o : NetworkOptions) (ambient : Nat → Ambient Q)
    (store : Store Q) {conn : Connection} (hopen : conn.closed = false)
    (hserving : conn.closeAfterWrite = false) (bytes : Bytes) :
    Received conn (conn.receiveBytes o ambient store bytes).1 bytes := by
  cases hrejected : (frameParser.drain (conn.readBuffer ++ bytes)).rejected with
  | true =>
      rw [receiveBytes_rejected hrejected]
      rcases finalResponse_cases o (conn.withInput bytes .onProtocolError)
          (ascii "-ERR protocol error") with
        ⟨cause, calls, hrefusal, hcalls, heq⟩ | ⟨paused, calls, -, hcalls, heq⟩
      · rw [heq]
        refine ⟨rfl, rfl, List.prefix_append .., newCauses_markClosed _ hrefusal.ofLimit,
          ⟨.addBytesReceived bytes.length :: .onProtocolError :: calls,
            by simp [markClosed, withInput], fun n => ?_⟩, .inl ⟨rfl, hrefusal.mem_causes _⟩⟩
        simp [hrejected, hcalls.not_mem n]
      · rw [heq]
        refine ⟨rfl, rfl, List.prefix_rfl, .refl _ conn,
          ⟨.addBytesReceived bytes.length :: .onProtocolError :: calls,
            by simp [withResponse, withInput], fun n => ?_⟩, .inr ⟨hopen, rfl, rfl, ?_⟩⟩
        · simp [hrejected, hcalls.not_mem n]
        · rw [if_pos hrejected]
          exact ⟨rfl, rfl⟩
  | false =>
      rw [receiveBytes_accepted hrejected]
      generalize hstate : conn.withInput bytes
        (.addFramesReceived (frameParser.drain (conn.readBuffer ++ bytes)).items.length) = state
      have hserved := served_processPayloads o
        (frameParser.drain (conn.readBuffer ++ bytes)).items ambient store
        (show state.closed = false from hstate ▸ hopen)
        (show state.closeAfterWrite = false from hstate ▸ hserving)
      obtain ⟨more, hmore, hcalls⟩ := hserved.calls
      subst hstate
      refine ⟨hserved.received, hserved.hungUp, hserved.causes, hserved.newCauses,
        ⟨.addBytesReceived bytes.length ::
          .addFramesReceived (frameParser.drain (conn.readBuffer ++ bytes)).items.length :: more,
          hcalls.trans (by simp [withInput]), fun n => ?_⟩, hserved.outcome.imp id ?_⟩
      · simp [hrejected, hmore.not_mem n]
      · rintro ⟨hafter, hcauses, hbuffer, hexec, hclose⟩
        refine ⟨hafter, hcauses, hbuffer, ?_⟩
        rw [hrejected]
        exact ⟨hexec, hclose⟩

/-! ### The read handler -/

/-- The read handler goes on to read. -/
structure Reading (conn : Connection) : Prop where
  opened : conn.closed = false
  unpaused : conn.readPaused = false
  serving : conn.closeAfterWrite = false

/-- What the read handler did with a connection it goes on to read. -/
inductive ReadOutcome (o : NetworkOptions) (input : IoInput Q) (store : Store Q)
    (conn : Connection) : Connection × Store Q → Prop where
  | oversized (hfull : o.maxReadBufferBytes ≤ conn.readBuffer.length) :
      ReadOutcome o input store conn (conn.rejectOversizedReadBuffer o, store)
  | ended {ready : Bytes} (hroom : conn.readBuffer.length < o.maxReadBufferBytes)
      (hrecv : input.recv.result = .bytes ready) (hnil : ready.take (conn.readSize o) = []) :
      ReadOutcome o input store conn (conn.receiveEnd, store)
  | bytes {ready : Bytes} (hroom : conn.readBuffer.length < o.maxReadBufferBytes)
      (hrecv : input.recv.result = .bytes ready) (hnil : ready.take (conn.readSize o) ≠ []) :
      ReadOutcome o input store conn
        (conn.receiveBytes o input.ambient store (ready.take (conn.readSize o)))
  | wouldBlock (hrecv : input.recv.result = .wouldBlock) :
      ReadOutcome o input store conn (conn, store)
  | failed (hrecv : input.recv.result = .failed) :
      ReadOutcome o input store conn (conn.markClosed .recvFailed, store)

theorem handleClientRead_refused {conn : Connection} (h : ¬ conn.Reading) (o : NetworkOptions)
    (input : IoInput Q) (store : Store Q) :
    conn.handleClientRead o input store = (conn, store) := by
  unfold handleClientRead
  rw [if_pos]
  by_contra hflags
  simp only [Bool.or_eq_true, not_or, Bool.not_eq_true] at hflags
  exact h ⟨hflags.1.1, hflags.1.2, hflags.2⟩

theorem handleClientRead_outcome {conn : Connection} (h : conn.Reading) (o : NetworkOptions)
    (input : IoInput Q) (store : Store Q) :
    ReadOutcome o input store conn (conn.handleClientRead o input store) := by
  unfold handleClientRead
  rw [if_neg (by simp [h.opened, h.unpaused, h.serving])]
  by_cases hfull : conn.readBuffer.length ≥ o.maxReadBufferBytes
  · rw [if_pos hfull]
    exact .oversized hfull
  rw [if_neg hfull]
  have hroom := Nat.lt_of_not_le hfull
  cases hrecv : input.recv.result with
  | bytes ready =>
      simp only
      split
      · next hnil => exact .ended hroom hrecv hnil
      · next hnil => exact .bytes hroom hrecv hnil
  | wouldBlock => exact .wouldBlock hrecv
  | failed => exact .failed hrecv

theorem newCauses_rejectOversizedReadBuffer (o : NetworkOptions) (conn : Connection) :
    NewCauses ofLimit conn (conn.rejectOversizedReadBuffer o) := by
  unfold rejectOversizedReadBuffer
  rcases queueResponse_cases o conn (ascii "-ERR request buffer too large") with
    ⟨cause, calls, hrefusal, -, heq⟩ | ⟨paused, calls, -, -, -, heq⟩
  · rw [heq]
    exact (newCauses_markClosed _ hrefusal.ofLimit).trans (newCauses_markClosed _ rfl)
  · rw [heq]
    exact .refl _ conn

/-- The first `MarkClosed` empties the write buffer, so that the second one follows. -/
theorem receiveEnd_eq (conn : Connection) :
    conn.receiveEnd = (conn.markClosed .endOfInput).markClosed .endOfInput := rfl

theorem newCauses_handleClientRead (o : NetworkOptions) (input : IoInput Q) (store : Store Q)
    (conn : Connection) : NewCauses ofReading conn (conn.handleClientRead o input store).1 := by
  by_cases hreading : conn.Reading
  swap
  · rw [handleClientRead_refused hreading]
    exact .refl _ conn
  have houtcome := handleClientRead_outcome hreading o input store
  generalize conn.handleClientRead o input store = result at houtcome ⊢
  cases houtcome with
  | oversized hfull => exact (newCauses_rejectOversizedReadBuffer o conn).reading
  | ended hroom hrecv hnil =>
      rw [receiveEnd_eq]
      exact (newCauses_markClosed conn rfl).trans (newCauses_markClosed _ rfl)
  | bytes hroom hrecv hnil =>
      exact (received_receiveBytes o input.ambient store hreading.opened hreading.serving
        _).newCauses.reading
  | wouldBlock hrecv => exact .refl _ conn
  | failed hrecv => exact newCauses_markClosed conn rfl

/-! ### Histories only grow -/

/-- The metric calls, the causes and the hangup flag of `before` are kept by `after`. -/
structure Grows (before after : Connection) : Prop where
  calls : before.calls <+: after.calls
  causes : before.trace.causes <+: after.trace.causes
  hungUp : before.trace.hungUp = true → after.trace.hungUp = true

theorem Grows.trans {a b c : Connection} (hab : Grows a b) (hbc : Grows b c) : Grows a c :=
  ⟨hab.calls.trans hbc.calls, hab.causes.trans hbc.causes, fun h => hbc.hungUp (hab.hungUp h)⟩

theorem Delivers.grows {a b : Connection} (h : Delivers a b) : Grows a b :=
  ⟨h.calls, h.causes, h.hungUp⟩

theorem grows_markClosed (conn : Connection) (cause : CloseCause) :
    Grows conn (conn.markClosed cause) :=
  ⟨List.prefix_rfl, List.prefix_append .., id⟩

theorem grows_queueResponse (o : NetworkOptions) (conn : Connection) (response : Bytes) :
    Grows conn (conn.queueResponse o response).2 := by
  rcases queueResponse_cases o conn response with
    ⟨cause, calls, -, -, heq⟩ | ⟨paused, calls, -, -, -, heq⟩
  · rw [heq]
    exact ⟨List.prefix_append .., List.prefix_append .., id⟩
  · rw [heq]
    exact ⟨List.prefix_append .., List.prefix_rfl, id⟩

theorem grows_rejectOversizedReadBuffer (o : NetworkOptions) (conn : Connection) :
    Grows conn (conn.rejectOversizedReadBuffer o) := by
  have hqueue := grows_queueResponse o conn (ascii "-ERR request buffer too large")
  rw [rejectOversizedReadBuffer_eq]
  split
  · exact hqueue.trans ⟨List.prefix_rfl, List.prefix_rfl, id⟩
  · exact hqueue.trans (grows_markClosed _ .oversized)

theorem grows_receiveEnd (conn : Connection) : Grows conn conn.receiveEnd :=
  (grows_markClosed conn .endOfInput).trans (grows_markClosed _ .endOfInput)

theorem Received.grows {a b : Connection} {bytes : Bytes} (h : Received a b bytes) :
    Grows a b := by
  obtain ⟨more, hmore, -⟩ := h.calls
  exact ⟨hmore ▸ List.prefix_append .., h.causes, fun hup => h.hungUp.trans hup⟩

end Connection

end TinyKv
