import TinyKv.Net.Segmentation

/-!
# The limit of the read buffer

`HandleClientRead` rejects a connection whose read buffer is full before it asks `recv` for more,
and asks for no more than the buffer has room for. `Decode` takes the complete frames off the
buffer, so that what fills it is a part of one frame.
-/

namespace TinyKv

open Foundation FrameCodec

variable {Q : ExpirationQueue}

namespace Connection

/-- What `HandleClientRead` does before it has received anything. -/
inductive ReadAction where
  | skips
  | rejects
  | receives (size : Nat)
deriving DecidableEq, Repr

/-- The beginning of `HandleClientRead`. -/
def readAction (o : NetworkOptions) (conn : Connection) : ReadAction :=
  if conn.closed || conn.readPaused || conn.closeAfterWrite then
    .skips
  else if conn.readBuffer.length ≥ o.maxReadBufferBytes then
    .rejects
  else
    .receives (conn.readSize o)

/-- `HandleClientRead` after this beginning. -/
theorem handleClientRead_eq (o : NetworkOptions) (input : IoInput Q) (store : Store Q)
    (conn : Connection) :
    conn.handleClientRead o input store =
      match conn.readAction o with
      | .skips => (conn, store)
      | .rejects => (conn.rejectOversizedReadBuffer o, store)
      | .receives size =>
          match input.recv.result with
          | .bytes ready =>
              if ready.take size = [] then
                (conn.receiveEnd, store)
              else
                conn.receiveBytes o input.ambient store (ready.take size)
          | .wouldBlock => (conn, store)
          | .failed => (conn.markClosed .recvFailed, store) := by
  unfold handleClientRead readAction
  split
  · rfl
  split
  · rfl
  · rfl

theorem reading_of_rejects {o : NetworkOptions} {conn : Connection}
    (h : conn.readAction o = .rejects) :
    conn.Reading ∧ o.maxReadBufferBytes ≤ conn.readBuffer.length := by
  unfold readAction at h
  split at h
  · cases h
  next hflags =>
    split at h
    · next hfull =>
      simp only [Bool.or_eq_true, not_or, Bool.not_eq_true] at hflags
      exact ⟨⟨hflags.1.1, hflags.1.2, hflags.2⟩, hfull⟩
    · cases h

theorem reading_of_receives {o : NetworkOptions} {conn : Connection} {size : Nat}
    (h : conn.readAction o = .receives size) :
    conn.Reading ∧ conn.readBuffer.length < o.maxReadBufferBytes ∧ size = conn.readSize o := by
  unfold readAction at h
  split at h
  · cases h
  next hflags =>
    split at h
    · cases h
    next hroom =>
      simp only [Bool.or_eq_true, not_or, Bool.not_eq_true] at hflags
      cases h
      exact ⟨⟨hflags.1.1, hflags.1.2, hflags.2⟩, Nat.not_le.mp hroom, rfl⟩

theorem readAction_of_reading {conn : Connection} (h : conn.Reading) {o : NetworkOptions}
    (hroom : conn.readBuffer.length < o.maxReadBufferBytes) :
    conn.readAction o = .receives (conn.readSize o) := by
  rw [readAction, if_neg (by simp [h.opened, h.unpaused, h.serving]),
    if_neg (Nat.not_le.mpr hroom)]

/-- `recv` is asked for at least one byte, and for no more than the buffer has room for. -/
theorem readSize_bounds {o : NetworkOptions} {conn : Connection}
    (hroom : conn.readBuffer.length < o.maxReadBufferBytes) :
    1 ≤ conn.readSize o ∧ conn.readBuffer.length + conn.readSize o ≤ o.maxReadBufferBytes := by
  unfold readSize
  omega

/-! ### The size of the read buffer -/

/-- The read buffer of an open connection is within the limit, and that of a closed one is
empty. -/
structure ReadsWithin (o : NetworkOptions) (conn : Connection) : Prop where
  bounded : conn.closed = false → conn.readBuffer.length ≤ o.maxReadBufferBytes
  cleared : conn.closed = true → conn.readBuffer = []

theorem ReadsWithin.length_le {o : NetworkOptions} {conn : Connection} (h : conn.ReadsWithin o) :
    conn.readBuffer.length ≤ o.maxReadBufferBytes := by
  cases hclosed : conn.closed with
  | false => exact h.bounded hclosed
  | true =>
      rw [h.cleared hclosed]
      exact Nat.zero_le _

theorem readsWithin_markClosed (o : NetworkOptions) (conn : Connection) (cause : CloseCause) :
    (conn.markClosed cause).ReadsWithin o where
  bounded hopen := by cases hopen
  cleared _ := rfl

/-- The limit does not depend on the other members. -/
theorem ReadsWithin.same {o : NetworkOptions} {a b : Connection} (h : a.ReadsWithin o)
    (hclosed : b.closed = a.closed) (hbuffer : b.readBuffer = a.readBuffer) : b.ReadsWithin o where
  bounded := by
    rw [hclosed, hbuffer]
    exact h.bounded
  cleared := by
    rw [hclosed, hbuffer]
    exact h.cleared

theorem ReadsWithin.updateReadBackPressure {o : NetworkOptions} {conn : Connection}
    (h : conn.ReadsWithin o) : (conn.updateReadBackPressure o).ReadsWithin o := by
  obtain ⟨paused, calls, heq, -⟩ := updateReadBackPressure_eq o conn
  rw [heq]
  exact h.same rfl rfl

theorem ReadsWithin.handleClientWrite {o : NetworkOptions} {conn : Connection}
    (h : conn.ReadsWithin o) (input : IoInput Q) :
    (conn.handleClientWrite o input).ReadsWithin o := by
  unfold Connection.handleClientWrite
  split
  · exact h
  split
  · simp only
    split
    · exact readsWithin_markClosed ..
    · exact h.updateReadBackPressure
  simp only
  cases input.send.result with
  | accepted bytes =>
      simp only
      split
      · unfold sendBytes
        simp only
        split
        · exact readsWithin_markClosed ..
        · apply ReadsWithin.updateReadBackPressure
          exact h.same rfl rfl
      · exact readsWithin_markClosed ..
  | wouldBlock => exact h
  | failed => exact readsWithin_markClosed ..

theorem ReadsWithin.hangUp {o : NetworkOptions} {conn : Connection} (h : conn.ReadsWithin o) :
    conn.hangUp.ReadsWithin o := by
  unfold Connection.hangUp
  simp only
  split
  · exact readsWithin_markClosed ..
  · exact h.same rfl rfl

theorem ReadsWithin.refreshInterest {o : NetworkOptions} {conn : Connection}
    (h : conn.ReadsWithin o) : (conn.refreshInterest o).1.ReadsWithin o := by
  unfold Connection.refreshInterest
  split
  · exact h
  simp only
  split
  · exact readsWithin_markClosed ..
  split
  · exact readsWithin_markClosed ..
  split
  · exact h.updateReadBackPressure
  · exact h.updateReadBackPressure

theorem ReadsWithin.beginDrain {o : NetworkOptions} {conn : Connection} (h : conn.ReadsWithin o) :
    (conn.beginDrain o).1.ReadsWithin o := by
  unfold Connection.beginDrain
  simp only
  split
  · exact readsWithin_markClosed ..
  · apply ReadsWithin.refreshInterest
    exact h.same rfl rfl

theorem ReadsWithin.afterRead {o : NetworkOptions} {conn : Connection} (h : conn.ReadsWithin o)
    (events : IoEvent) (input : IoInput Q) :
    (conn.afterRead o events input).1.ReadsWithin o := by
  have hwrite : ReadsWithin o (if !conn.closed && events.write then
      conn.handleClientWrite o input else conn) :=
    iteInduction (fun _ => h.handleClientWrite input) fun _ => h
  unfold Connection.afterRead
  generalize (if !conn.closed && events.write then conn.handleClientWrite o input
    else conn) = written at hwrite
  have hhang : ReadsWithin o (if !written.closed && events.hangup then written.hangUp
      else written) :=
    iteInduction (fun _ => hwrite.hangUp) fun _ => hwrite
  simp only
  generalize (if !written.closed && events.hangup then written.hangUp else written) = hung
    at hhang
  split
  · exact hhang.refreshInterest
  · exact hhang

theorem ReadsWithin.queueResponse {o : NetworkOptions} {conn : Connection}
    (h : conn.ReadsWithin o) (response : Bytes) :
    (conn.queueResponse o response).2.ReadsWithin o := by
  rcases queueResponse_cases o conn response with
    ⟨cause, calls, -, -, heq⟩ | ⟨paused, calls, -, -, -, heq⟩
  · rw [heq]
    exact readsWithin_markClosed ..
  · rw [heq]
    exact h.same rfl rfl

theorem ReadsWithin.finalResponse {o : NetworkOptions} {conn : Connection}
    (h : conn.ReadsWithin o) (response : Bytes) :
    (conn.finalResponse o response).ReadsWithin o := by
  unfold Connection.finalResponse
  split
  · exact (h.queueResponse response).same rfl rfl
  · exact h.queueResponse response

theorem ReadsWithin.processPayload {o : NetworkOptions} {conn : Connection}
    (h : conn.ReadsWithin o) (ambient : Ambient Q) (store : Store Q) (payload : Bytes) :
    (conn.processPayload o ambient store payload).2.1.ReadsWithin o := by
  rcases processPayload_cases o ambient store conn payload with
    ⟨cause, calls, -, -, heq⟩ | ⟨paused, before, calls, -, -, -, -, heq⟩
  · rw [heq]
    exact readsWithin_markClosed ..
  · rw [heq]
    exact h.same rfl rfl

theorem ReadsWithin.processPayloads {o : NetworkOptions} (payloads : List Bytes)
    {conn : Connection} (h : conn.ReadsWithin o) (ambient : Nat → Ambient Q) (store : Store Q) :
    (conn.processPayloads o ambient store payloads).1.ReadsWithin o := by
  induction payloads generalizing conn ambient store with
  | nil => exact h
  | cons payload rest ih =>
      have hnext := h.processPayload (ambient 0) store payload
      unfold Connection.processPayloads
      generalize conn.processPayload o (ambient 0) store payload = result at hnext ⊢
      obtain ⟨continues, mid, store'⟩ := result
      cases continues with
      | false => exact hnext
      | true => exact ih hnext _ _

/-- Also before `Decode` takes anything off it, the buffer is within the limit. -/
theorem ReadsWithin.receiveBytes {o : NetworkOptions} {conn : Connection}
    (hopen : conn.closed = false) {bytes : Bytes}
    (hfits : conn.readBuffer.length + bytes.length ≤ o.maxReadBufferBytes)
    (ambient : Nat → Ambient Q) (store : Store Q) :
    (conn.receiveBytes o ambient store bytes).1.ReadsWithin o := by
  have hinput (call : MetricCall) : (conn.withInput bytes call).ReadsWithin o := by
    have hrebuild := congrArg List.length (drain_rebuild (conn.readBuffer ++ bytes))
    simp only [List.length_append] at hrebuild
    constructor
    · intro _
      change (frameParser.drain (conn.readBuffer ++ bytes)).rest.length ≤ _
      omega
    · intro hclosed
      change conn.closed = true at hclosed
      rw [hopen] at hclosed
      cases hclosed
  cases hrejected : (frameParser.drain (conn.readBuffer ++ bytes)).rejected with
  | true =>
      rw [receiveBytes_rejected hrejected]
      exact (hinput _).finalResponse _
  | false =>
      rw [receiveBytes_accepted hrejected]
      exact (hinput _).processPayloads _ ambient store

theorem ReadsWithin.handleClientRead {o : NetworkOptions} {conn : Connection}
    (h : conn.ReadsWithin o) (input : IoInput Q) (store : Store Q) :
    (conn.handleClientRead o input store).1.ReadsWithin o := by
  by_cases hreading : conn.Reading
  swap
  · rw [handleClientRead_refused hreading]
    exact h
  have houtcome := handleClientRead_outcome hreading o input store
  generalize conn.handleClientRead o input store = result at houtcome ⊢
  cases houtcome with
  | oversized hfull =>
      rw [rejectOversizedReadBuffer_eq]
      split
      · exact (h.queueResponse _).same rfl rfl
      · exact readsWithin_markClosed ..
  | ended hroom hrecv hnil =>
      rw [receiveEnd_eq]
      exact readsWithin_markClosed ..
  | @bytes ready hroom hrecv hnil =>
      apply ReadsWithin.receiveBytes hreading.opened
      have hbounds := readSize_bounds hroom
      have htake := List.length_take_le (conn.readSize o) ready
      omega
  | wouldBlock hrecv => exact h
  | failed hrecv => exact readsWithin_markClosed ..

theorem ReadsWithin.handleEvent {o : NetworkOptions} {conn : Connection} (h : conn.ReadsWithin o)
    (state : ServerState) (events : IoEvent) (input : IoInput Q) (store : Store Q) :
    (conn.handleEvent o state events input store).1.1.ReadsWithin o := by
  rw [handleEvent_cases]
  split
  · exact readsWithin_markClosed ..
  split
  · exact (h.handleClientRead input store).afterRead events input
  · exact h.afterRead events input

/-! ### What the read buffer holds -/

/-- A serving connection has executed the frames it has received, and holds a part of the next
one. -/
def Parsed (conn : Connection) : Prop :=
  conn.Serving → (frameParser.drain conn.stream).rejected = false ∧
    conn.readBuffer = (frameParser.drain conn.stream).rest ∧
    conn.executedPayloads = (frameParser.drain conn.stream).items

theorem parsed_accepted (fd : Int) : (accepted fd).Parsed := fun _ => ⟨rfl, rfl, rfl⟩

theorem parsed_of_stopped {conn : Connection} (h : ¬ conn.Serving) : conn.Parsed :=
  fun hserving => absurd hserving h

theorem Parsed.delivers {a b : Connection} (h : a.Parsed) (hab : Delivers a b) : b.Parsed := by
  intro hserving
  have hbefore : a.Serving := by
    by_contra hstopped
    exact hab.stopped hstopped hserving
  obtain ⟨haccepted, hbuffer, hexecuted⟩ := h hbefore
  rw [hab.stream, (hab.opened hserving.1).2.1, hab.executedPayloads]
  exact ⟨haccepted, hbuffer, hexecuted⟩

/-- One `recv` result on a serving connection. -/
theorem Parsed.received {a b : Connection} {bytes : Bytes} (hserving : a.Serving) (h : a.Parsed)
    (hab : Received a b bytes) : b.Parsed := by
  obtain ⟨haccepted, hbuffer, hexecuted⟩ := h hserving
  have hstream : b.stream = a.stream ++ bytes := by simp [stream, hab.received]
  have hsplit := frameParser.drain_append haccepted bytes
  rw [← hbuffer] at hsplit
  obtain hrefused | ⟨hopen, -, hrest, hcase⟩ := hab.outcome
  · apply parsed_of_stopped
    rintro ⟨hopen, -⟩
    exact not_refused hopen hrefused
  cases hrejected : (frameParser.drain (a.readBuffer ++ bytes)).rejected with
  | true =>
      rw [if_pos hrejected] at hcase
      exact parsed_of_stopped (not_serving hcase.2)
  | false =>
      rw [if_neg (by simp [hrejected])] at hcase
      cases hany : (frameParser.drain (a.readBuffer ++ bytes)).items.any isQuit with
      | true => exact parsed_of_stopped (not_serving (hcase.2.trans hany))
      | false =>
          intro _
          rw [hstream, hsplit]
          refine ⟨hrejected, hrest, ?_⟩
          rw [hcase.1, hexecuted, throughQuit_of_not_any hany]

theorem not_serving_rejectOversizedReadBuffer (o : NetworkOptions) (conn : Connection) :
    ¬ (conn.rejectOversizedReadBuffer o).Serving := by
  rw [rejectOversizedReadBuffer_eq]
  split
  · exact not_serving rfl
  · exact not_serving_markClosed _ _

theorem Parsed.handleClientRead {conn : Connection} (h : conn.Parsed) (o : NetworkOptions)
    (input : IoInput Q) (store : Store Q) : (conn.handleClientRead o input store).1.Parsed := by
  by_cases hreading : conn.Reading
  swap
  · rw [handleClientRead_refused hreading]
    exact h
  have houtcome := handleClientRead_outcome hreading o input store
  generalize conn.handleClientRead o input store = result at houtcome ⊢
  cases houtcome with
  | oversized hfull => exact parsed_of_stopped (not_serving_rejectOversizedReadBuffer o conn)
  | ended hroom hrecv hnil => exact parsed_of_stopped (not_serving_markClosed _ _)
  | bytes hroom hrecv hnil =>
      exact h.received ⟨hreading.opened, hreading.serving⟩
        (received_receiveBytes o input.ambient store hreading.opened hreading.serving _)
  | wouldBlock hrecv => exact h
  | failed hrecv => exact parsed_of_stopped (not_serving_markClosed _ _)

theorem Parsed.handleEvent {conn : Connection} (h : conn.Parsed) (o : NetworkOptions)
    (state : ServerState) (events : IoEvent) (input : IoInput Q) (store : Store Q) :
    (conn.handleEvent o state events input store).1.1.Parsed := by
  rw [handleEvent_cases]
  split
  · exact parsed_of_stopped (not_serving_markClosed _ _)
  split
  · exact (h.handleClientRead o input store).delivers (delivers_afterRead o events input _)
  · exact h.delivers (delivers_afterRead o events input conn)

/-! ### The frame being received -/

/-- Payloads that fit a frame. -/
def Framed (payloads : List Bytes) : Prop := ∀ payload ∈ payloads, payload.length ≤ maxFrameSize

theorem Framed.next {payloads : List Bytes} (h : Framed payloads) :
    ∀ payload ∈ payloads, ∀ more,
      frameParser.next (frameOf payload ++ more) = .item payload more :=
  fun payload hmem more => next_frameOf (h payload hmem) more

/-- The payloads not yet executed, the first of which the read buffer holds a part of. -/
theorem Parsed.others {conn : Connection} (h : conn.Parsed) (hserving : conn.Serving)
    {payloads : List Bytes} (hframed : Framed payloads)
    (hstream : conn.stream <+: payloads.flatMap frameOf) :
    ∃ others, payloads = conn.executedPayloads ++ others ∧
      conn.readBuffer <+: others.flatMap frameOf ∧
      conn.stream = conn.executedPayloads.flatMap frameOf ++ conn.readBuffer ∧
      frameParser.next conn.readBuffer = .more := by
  obtain ⟨haccepted, hbuffer, hexecuted⟩ := h hserving
  obtain ⟨-, others, hpayloads, hrest⟩ :=
    frameParser.drain_of_prefix (fun h => (nextFrame_item h).1) next_nil hframed.next hstream
  refine ⟨others, ?_, ?_, ?_, ?_⟩
  · rw [hexecuted]
    exact hpayloads
  · rw [hbuffer]
    exact hrest
  · rw [hexecuted, hbuffer]
    exact drain_rebuild conn.stream
  · rw [hbuffer, frameParser.next_drain_rest, haccepted]
    rfl

theorem length_lt_of_waiting {buffer payload : Bytes} {others : List Bytes}
    (hmore : frameParser.next buffer = .more) (hfits : payload.length ≤ maxFrameSize)
    (hinitial : buffer <+: (payload :: others).flatMap frameOf) :
    buffer.length < headerSize + payload.length := by
  obtain ⟨tail, htail⟩ := hinitial
  have hlt := length_frameOf_of_next_more hmore hfits htail
  rw [length_frameOf] at hlt
  exact hlt

/-- `RejectOversizedReadBuffer` is called only while a frame that does not fit is received. -/
theorem Parsed.rejects {conn : Connection} (h : conn.Parsed) {o : NetworkOptions}
    (hlimit : headerSize ≤ o.maxReadBufferBytes) (hrejects : conn.readAction o = .rejects)
    {payloads : List Bytes} (hframed : Framed payloads)
    (hstream : conn.stream <+: payloads.flatMap frameOf) :
    ∃ payload, payloads[conn.trace.executed.length]? = some payload ∧
      o.maxReadBufferBytes < headerSize + payload.length := by
  obtain ⟨hreading, hfull⟩ := reading_of_rejects hrejects
  obtain ⟨others, hpayloads, hinitial, -, hmore⟩ :=
    h.others ⟨hreading.opened, hreading.serving⟩ hframed hstream
  cases others with
  | nil =>
      have hnil : conn.readBuffer = [] := List.prefix_nil.mp hinitial
      rw [hnil, List.length_nil] at hfull
      simp only [headerSize] at hlimit
      omega
  | cons payload others =>
      have hlen : conn.executedPayloads.length = conn.trace.executed.length := by
        simp [executedPayloads]
      have hmem : payload ∈ payloads := by
        rw [hpayloads]
        simp
      have hlt := length_lt_of_waiting hmore (hframed payload hmem) hinitial
      refine ⟨payload, ?_, by omega⟩
      rw [hpayloads, ← hlen]
      simp

/-! ### Successive reads -/

/-- What has been received and executed stays so. -/
structure Extends (before after : Connection) : Prop where
  received : before.trace.received <+: after.trace.received
  executed : before.trace.executed <+: after.trace.executed

theorem Extends.refl (conn : Connection) : Extends conn conn := ⟨List.prefix_rfl, List.prefix_rfl⟩

theorem Extends.trans {a b c : Connection} (hab : Extends a b) (hbc : Extends b c) :
    Extends a c :=
  ⟨hab.received.trans hbc.received, hab.executed.trans hbc.executed⟩

theorem Extends.executedPayloads {a b : Connection} (h : Extends a b) :
    a.executedPayloads <+: b.executedPayloads :=
  h.executed.map Prod.fst

theorem Extends.stream {a b : Connection} (h : Extends a b) : a.stream <+: b.stream := by
  obtain ⟨more, hmore⟩ := h.received
  rw [Connection.stream, Connection.stream, ← hmore, List.flatten_append]
  exact List.prefix_append ..

theorem extends_queueResponse (o : NetworkOptions) (conn : Connection) (response : Bytes) :
    Extends conn (conn.queueResponse o response).2 := by
  rcases queueResponse_cases o conn response with
    ⟨cause, calls, -, -, heq⟩ | ⟨paused, calls, -, -, -, heq⟩
  · rw [heq]
    exact ⟨List.prefix_rfl, List.prefix_rfl⟩
  · rw [heq]
    exact ⟨List.prefix_rfl, List.prefix_rfl⟩

/-- `ProcessPayload` executes the payload, also when its response is refused. -/
theorem extends_processPayload (o : NetworkOptions) (ambient : Ambient Q) (store : Store Q)
    (conn : Connection) (payload : Bytes) :
    Extends (conn.withExecuted payload (payloadResult ambient store payload).1 [])
      (conn.processPayload o ambient store payload).2.1 := by
  rcases processPayload_cases o ambient store conn payload with
    ⟨cause, calls, -, -, heq⟩ | ⟨paused, before, calls, -, -, -, -, heq⟩
  · rw [heq]
    exact ⟨List.prefix_rfl, List.prefix_rfl⟩
  · rw [heq]
    exact ⟨List.prefix_rfl, List.prefix_rfl⟩

theorem extends_withExecuted (conn : Connection) (payload response : Bytes)
    (calls : List MetricCall) : Extends conn (conn.withExecuted payload response calls) :=
  ⟨List.prefix_rfl, List.prefix_append ..⟩

theorem extends_processPayloads (o : NetworkOptions) (payloads : List Bytes)
    (ambient : Nat → Ambient Q) (store : Store Q) (conn : Connection) :
    Extends conn (conn.processPayloads o ambient store payloads).1 := by
  induction payloads generalizing ambient store conn with
  | nil => exact .refl conn
  | cons payload rest ih =>
      have hfirst := (extends_withExecuted conn payload _ []).trans
        (extends_processPayload o (ambient 0) store conn payload)
      unfold processPayloads
      generalize conn.processPayload o (ambient 0) store payload = result at hfirst ⊢
      obtain ⟨continues, mid, store'⟩ := result
      cases continues with
      | false => exact hfirst
      | true => exact hfirst.trans (ih _ _ mid)

/-- The first payload of a batch is executed whatever becomes of the connection. -/
theorem executed_processPayloads (o : NetworkOptions) (payload : Bytes) (rest : List Bytes)
    (ambient : Nat → Ambient Q) (store : Store Q) (conn : Connection) :
    conn.executedPayloads ++ [payload] <+:
      (conn.processPayloads o ambient store (payload :: rest)).1.executedPayloads := by
  have hfirst := (extends_processPayload o (ambient 0) store conn payload).executedPayloads
  have hexecuted : (conn.withExecuted payload (payloadResult (ambient 0) store payload).1
      []).executedPayloads = conn.executedPayloads ++ [payload] := by
    simp [executedPayloads, withExecuted]
  rw [hexecuted] at hfirst
  unfold processPayloads
  generalize conn.processPayload o (ambient 0) store payload = result at hfirst ⊢
  obtain ⟨continues, mid, store'⟩ := result
  cases continues with
  | false => exact hfirst
  | true => exact hfirst.trans (extends_processPayloads o rest _ _ mid).executedPayloads

theorem extends_receiveBytes (o : NetworkOptions) (ambient : Nat → Ambient Q) (store : Store Q)
    (conn : Connection) (bytes : Bytes) (call : MetricCall) :
    Extends (conn.withInput bytes call) (conn.receiveBytes o ambient store bytes).1 := by
  cases hrejected : (frameParser.drain (conn.readBuffer ++ bytes)).rejected with
  | true =>
      rw [receiveBytes_rejected hrejected]
      rcases finalResponse_cases o (conn.withInput bytes .onProtocolError)
          (ascii "-ERR protocol error") with
        ⟨cause, calls, -, -, heq⟩ | ⟨paused, calls, -, -, heq⟩
      · rw [heq]
        exact ⟨List.prefix_rfl, List.prefix_rfl⟩
      · rw [heq]
        exact ⟨List.prefix_rfl, List.prefix_rfl⟩
  | false =>
      rw [receiveBytes_accepted hrejected]
      have hbatch := extends_processPayloads o
        (frameParser.drain (conn.readBuffer ++ bytes)).items ambient store
        (conn.withInput bytes
          (.addFramesReceived (frameParser.drain (conn.readBuffer ++ bytes)).items.length))
      exact ⟨hbatch.received, hbatch.executed⟩

theorem extends_handleClientRead (o : NetworkOptions) (input : IoInput Q) (store : Store Q)
    (conn : Connection) : Extends conn (conn.handleClientRead o input store).1 := by
  by_cases hreading : conn.Reading
  swap
  · rw [handleClientRead_refused hreading]
    exact .refl conn
  have houtcome := handleClientRead_outcome hreading o input store
  generalize conn.handleClientRead o input store = result at houtcome ⊢
  cases houtcome with
  | oversized hfull =>
      have hqueue := extends_queueResponse o conn (ascii "-ERR request buffer too large")
      rw [rejectOversizedReadBuffer_eq]
      split
      · exact ⟨hqueue.received, hqueue.executed⟩
      · exact ⟨hqueue.received, hqueue.executed⟩
  | ended hroom hrecv hnil => exact ⟨List.prefix_rfl, List.prefix_rfl⟩
  | @bytes ready hroom hrecv hnil =>
      have hinput : Extends conn
          (conn.withInput (ready.take (conn.readSize o)) .onProtocolError) :=
        ⟨List.prefix_append .., List.prefix_rfl⟩
      exact hinput.trans (extends_receiveBytes ..)
  | wouldBlock hrecv => exact .refl conn
  | failed hrecv => exact ⟨List.prefix_rfl, List.prefix_rfl⟩

/-- Successive calls of `HandleClientRead`. -/
def handleClientReads (o : NetworkOptions) :
    List (IoInput Q) → Store Q → Connection → Connection × Store Q
  | [], store, conn => (conn, store)
  | input :: rest, store, conn =>
      let (conn, store) := conn.handleClientRead o input store
      handleClientReads o rest store conn

theorem extends_handleClientReads (o : NetworkOptions) (inputs : List (IoInput Q))
    (store : Store Q) (conn : Connection) :
    Extends conn (conn.handleClientReads o inputs store).1 := by
  induction inputs generalizing store conn with
  | nil => exact .refl conn
  | cons input rest ih =>
      exact (extends_handleClientRead o input store conn).trans (ih _ _)

/-- One read in the middle of a frame: the frame is completed and executed, or the connection
goes on to read, with more of the frame in its buffer. -/
theorem receiveBytes_part {conn : Connection} {payload bytes : Bytes} {others : List Bytes}
    (hframed : Framed (payload :: others))
    (hinitial : conn.readBuffer ++ bytes <+: (payload :: others).flatMap frameOf)
    (o : NetworkOptions) (ambient : Nat → Ambient Q) (store : Store Q) :
    conn.executedPayloads ++ [payload] <+:
        (conn.receiveBytes o ambient store bytes).1.executedPayloads ∨
      ∃ calls, conn.receiveBytes o ambient store bytes = ({ conn with
        readBuffer := conn.readBuffer ++ bytes
        calls := conn.calls ++ calls
        trace.received := conn.trace.received ++ [bytes] }, store) := by
  have hfits := hframed payload (List.mem_cons_self ..)
  have haccepted := (frameParser.drain_of_prefix (fun h => (nextFrame_item h).1) next_nil
    hframed.next hinitial).1
  rw [List.flatMap_cons] at hinitial
  obtain hpart | hwhole := Nat.lt_or_ge (conn.readBuffer ++ bytes).length (frameOf payload).length
  · right
    have hmore := frameParser.next_of_part (fun h => (nextFrame_item h).1) (next_frameOf hfits)
      hinitial hpart
    have hdrain := frameParser.drain_more hmore
    refine ⟨[.addBytesReceived bytes.length, .addFramesReceived 0], ?_⟩
    rw [receiveBytes_accepted haccepted, hdrain]
    simp [withInput, processPayloads, hdrain]
  · left
    obtain ⟨rest, hrest⟩ :=
      List.prefix_of_prefix_length_le (List.prefix_append ..) hinitial hwhole
    have hitem := next_frameOf hfits rest
    rw [hrest] at hitem
    have hdrain := frameParser.drain_item hitem
    rw [receiveBytes_accepted haccepted]
    generalize hstate : conn.withInput bytes _ = state
    have hexecuted : state.executedPayloads = conn.executedPayloads := by
      rw [← hstate]
      rfl
    rw [hdrain, ← hexecuted]
    exact executed_processPayloads o payload _ ambient store state

/-- The read buffer of a serving connection holds less than the frame that is being received. -/
theorem Parsed.current {conn : Connection} (h : conn.Parsed) (hserving : conn.Serving)
    {payloads : List Bytes} (hframed : Framed payloads)
    (hstream : conn.stream <+: payloads.flatMap frameOf) {payload : Bytes}
    (hcurrent : payloads[conn.trace.executed.length]? = some payload) :
    ∃ others, payloads = conn.executedPayloads ++ payload :: others ∧
      conn.stream = conn.executedPayloads.flatMap frameOf ++ conn.readBuffer ∧
      conn.readBuffer.length < headerSize + payload.length := by
  obtain ⟨others, hpayloads, hinitial, hsplit, hmore⟩ := h.others hserving hframed hstream
  have hlen : conn.trace.executed.length = conn.executedPayloads.length := by
    simp [executedPayloads]
  rw [hpayloads, hlen, List.getElem?_append_right (Nat.le_refl _), Nat.sub_self] at hcurrent
  cases others with
  | nil => cases hcurrent
  | cons first others =>
      cases hcurrent
      have hmem : payload ∈ payloads := by
        rw [hpayloads]
        simp
      exact ⟨others, hpayloads, hsplit,
        length_lt_of_waiting hmore (hframed payload hmem) hinitial⟩

/-- With room in the buffer, bytes that are ready are received. -/
theorem handleClientRead_ready {o : NetworkOptions} {conn : Connection} (hreading : conn.Reading)
    (hroom : conn.readBuffer.length < o.maxReadBufferBytes) {input : IoInput Q} {ready : Bytes}
    (hnonempty : ready ≠ []) (hrecv : input.recv.result = .bytes ready) (store : Store Q) :
    ready.take (conn.readSize o) ≠ [] ∧ conn.handleClientRead o input store =
      conn.receiveBytes o input.ambient store (ready.take (conn.readSize o)) := by
  have hsize := (readSize_bounds hroom).1
  have htake : ready.take (conn.readSize o) ≠ [] := by
    intro hnil
    obtain hzero | hempty := List.take_eq_nil_iff.mp hnil
    · omega
    · exact hnonempty hempty
  refine ⟨htake, ?_⟩
  rw [handleClientRead_eq, readAction_of_reading hreading hroom, hrecv]
  simp only
  rw [if_neg htake]

/-- A frame that fits is completed and executed after at most as many reads as bytes of it are
missing; by induction on the reads. -/
theorem Parsed.completes (o : NetworkOptions) (inputs : List (IoInput Q)) {payloads : List Bytes}
    (hframed : Framed payloads) {payload : Bytes}
    (hfits : headerSize + payload.length ≤ o.maxReadBufferBytes)
    (hready : ∀ input ∈ inputs, ∃ ready, ready ≠ [] ∧ input.recv.result = .bytes ready)
    (store : Store Q) {conn : Connection} (h : conn.Parsed) (hreading : conn.Reading)
    (hcurrent : payloads[conn.trace.executed.length]? = some payload)
    (hstream : (conn.handleClientReads o inputs store).1.stream <+: payloads.flatMap frameOf)
    (henough : headerSize + payload.length ≤ conn.readBuffer.length + inputs.length) :
    conn.executedPayloads ++ [payload] <+:
      (conn.handleClientReads o inputs store).1.executedPayloads := by
  induction inputs generalizing store conn with
  | nil =>
      obtain ⟨others, hpayloads, hsplit, hpart⟩ :=
        h.current ⟨hreading.opened, hreading.serving⟩ hframed hstream hcurrent
      simp only [List.length_nil] at henough
      omega
  | cons input rest ih =>
      obtain ⟨others, hpayloads, hsplit, hpart⟩ :=
        h.current ⟨hreading.opened, hreading.serving⟩ hframed
          ((extends_handleClientReads o (input :: rest) store conn).stream.trans hstream) hcurrent
      obtain ⟨ready, hnonempty, hrecv⟩ := hready input (List.mem_cons_self ..)
      have hroom := hpart.trans_le hfits
      obtain ⟨htake, hread⟩ := handleClientRead_ready hreading hroom hnonempty hrecv store
      have hparsed := h.handleClientRead o input store
      simp only [handleClientReads, hread] at hstream hparsed ⊢
      generalize ready.take (conn.readSize o) = bytes at htake hstream hparsed ⊢
      have hafter := (extends_handleClientReads o rest
        (conn.receiveBytes o input.ambient store bytes).2
        (conn.receiveBytes o input.ambient store bytes).1)
      have hreceived := (extends_receiveBytes o input.ambient store conn bytes
        .onProtocolError).stream
      have hstream' : (conn.withInput bytes .onProtocolError).stream = conn.stream ++ bytes := by
        simp [Connection.stream, withInput]
      have hmore : conn.readBuffer ++ bytes <+: (payload :: others).flatMap frameOf := by
        have hall := hreceived.trans (hafter.stream.trans hstream)
        rw [hstream', hsplit, hpayloads, List.flatMap_append, List.append_assoc] at hall
        exact (List.prefix_append_right_inj _).mp hall
      have hothers : Framed (payload :: others) := by
        intro p hp
        apply hframed
        rw [hpayloads]
        exact List.mem_append_right _ hp
      obtain hdone | ⟨calls, heq⟩ := receiveBytes_part hothers hmore o input.ambient store
      · exact hdone.trans hafter.executedPayloads
      · rw [heq] at hstream hparsed ⊢
        have hreading' : Reading { conn with
            readBuffer := conn.readBuffer ++ bytes
            calls := conn.calls ++ calls
            trace.received := conn.trace.received ++ [bytes] } :=
          ⟨hreading.opened, hreading.unpaused, hreading.serving⟩
        have hlen := List.length_pos_iff.mpr htake
        refine ih (fun input hinput => hready input (List.mem_cons_of_mem _ hinput)) store hparsed
          hreading' hcurrent hstream ?_
        simp only [List.length_cons, List.length_append] at henough ⊢
        omega

end Connection

namespace Session

theorem readsWithin_step {o : NetworkOptions} {s : Session Q} (h : s.conn.ReadsWithin o)
    (event : SessionEvent Q) : (s.step o event).conn.ReadsWithin o := by
  rcases s.step_conn o event with
    hsame | ⟨reason, hclosed⟩ | ⟨registered, hdrain⟩ | ⟨events, input, registered, -, hready⟩
  · rw [hsame]
    exact h
  · rw [hclosed]
    exact Connection.readsWithin_markClosed ..
  · rw [hdrain]
    exact h.beginDrain.same rfl rfl
  · rw [hready]
    exact (h.handleEvent s.phase events input s.store).same rfl rfl

theorem parsed_step {o : NetworkOptions} {s : Session Q} (h : s.conn.Parsed)
    (event : SessionEvent Q) : (s.step o event).conn.Parsed := by
  rcases s.step_conn o event with
    hsame | ⟨reason, hclosed⟩ | ⟨registered, hdrain⟩ | ⟨events, input, registered, -, hready⟩
  · rw [hsame]
    exact h
  · rw [hclosed]
    exact Connection.parsed_of_stopped (Connection.not_serving_markClosed _ _)
  · rw [hdrain]
    exact (h.delivers (Connection.delivers_beginDrain o s.conn)).delivers
      (Connection.Delivers.register _ registered)
  · rw [hready]
    exact (h.handleEvent o s.phase events input s.store).delivers
      (Connection.Delivers.register _ registered)

theorem readsWithin_run (o : NetworkOptions) (fd : Int) (store : Store Q)
    (events : List (SessionEvent Q)) : ((start fd store).run o events).conn.ReadsWithin o :=
  (machine o).run_invariant (I := fun s => s.conn.ReadsWithin o)
    (fun _ h event _ => readsWithin_step h event)
    ⟨fun _ => Nat.zero_le _, fun _ => rfl⟩

theorem parsed_run (o : NetworkOptions) (fd : Int) (store : Store Q)
    (events : List (SessionEvent Q)) : ((start fd store).run o events).conn.Parsed :=
  (machine o).run_invariant (I := fun s => s.conn.Parsed)
    (fun _ h event _ => parsed_step h event) (Connection.parsed_accepted fd)

/-- The read buffer never exceeds its limit, and `recv` is asked for at least one byte and for no
more than there is room for. While the stream consists of frames that `Decode` accepts, the
rejection is for a frame that does not fit; a serving connection has executed all frames that it
has received, and completes and executes the next one if it fits. When all frames fit, nothing is
rejected. -/
theorem read_limit_exact (o : NetworkOptions) (hlimit : headerSize ≤ o.maxReadBufferBytes)
    (fd : Int) (store : Store Q) (events : List (SessionEvent Q)) (payloads : List Bytes)
    (hframed : Connection.Framed payloads) :
    let s := (start fd store).run o events
    let delivered := s.conn.trace.executed.length
    s.conn.readBuffer.length ≤ o.maxReadBufferBytes ∧
    (∀ size, s.conn.readAction o = .receives size →
      1 ≤ size ∧ s.conn.readBuffer.length + size ≤ o.maxReadBufferBytes) ∧
    (s.conn.stream <+: payloads.flatMap frameOf →
      (s.conn.readAction o = .rejects → ∃ payload, payloads[delivered]? = some payload ∧
        o.maxReadBufferBytes < headerSize + payload.length) ∧
      (s.conn.Serving → s.conn.executedPayloads = payloads.take delivered ∧
        s.conn.stream = (payloads.take delivered).flatMap frameOf ++ s.conn.readBuffer ∧
        ∀ payload, payloads[delivered]? = some payload →
          s.conn.readBuffer.length < headerSize + payload.length) ∧
      (s.conn.Reading → ∀ payload, payloads[delivered]? = some payload →
        headerSize + payload.length ≤ o.maxReadBufferBytes → ∀ inputs : List (IoInput Q),
          (∀ input ∈ inputs, ∃ ready, ready ≠ [] ∧ input.recv.result = .bytes ready) →
          (s.conn.handleClientReads o inputs s.store).1.stream <+: payloads.flatMap frameOf →
          headerSize + payload.length ≤ s.conn.readBuffer.length + inputs.length →
            payloads.take (delivered + 1) <+:
              (s.conn.handleClientReads o inputs s.store).1.executedPayloads) ∧
      (headerSize + maxFrameSize ≤ o.maxReadBufferBytes → s.conn.readAction o ≠ .rejects)) := by
  intro s delivered
  have hwithin : s.conn.ReadsWithin o := readsWithin_run o fd store events
  have hparsed : s.conn.Parsed := parsed_run o fd store events
  have hlen : delivered = s.conn.executedPayloads.length := by
    simp [delivered, Connection.executedPayloads]
  refine ⟨hwithin.length_le, fun size hsize => ?_, fun hstream => ⟨fun hrejects => ?_,
    fun hserving => ?_, fun hreading payload hcurrent hfits inputs hready hafter henough => ?_,
    fun hall hrejects => ?_⟩⟩
  · obtain ⟨-, hroom, rfl⟩ := Connection.reading_of_receives hsize
    exact Connection.readSize_bounds hroom
  · exact hparsed.rejects hlimit hrejects hframed hstream
  · obtain ⟨others, hpayloads, -, hsplit, -⟩ := hparsed.others hserving hframed hstream
    have htake : payloads.take delivered = s.conn.executedPayloads := by
      rw [hlen, hpayloads, List.take_left]
    rw [htake]
    refine ⟨rfl, hsplit, fun payload hcurrent => ?_⟩
    obtain ⟨_, _, _, hlt⟩ := hparsed.current hserving hframed hstream hcurrent
    exact hlt
  · have hserving : s.conn.Serving := ⟨hreading.opened, hreading.serving⟩
    obtain ⟨others, hpayloads, -, -⟩ := hparsed.current hserving hframed hstream hcurrent
    have htake : payloads.take (delivered + 1) = s.conn.executedPayloads ++ [payload] := by
      rw [hlen, hpayloads, List.take_append]
      simp
    rw [htake]
    exact hparsed.completes o inputs hframed hfits hready s.store hreading hcurrent hafter henough
  · obtain ⟨payload, hcurrent, hlarge⟩ := hparsed.rejects hlimit hrejects hframed hstream
    have hmax := hframed payload (List.mem_of_getElem? hcurrent)
    omega

/-- A limit of 8 bytes is enough for a PING, in whatever pieces it comes. -/
theorem read_limit_exact_ping :
    let o : NetworkOptions := { maxReadBufferBytes := 8 }
    let s := fresh.run o [readable [0, 0, 0]]
    [ascii "PING"] <+: (s.conn.handleClientReads o
      ((4 :: ascii "PING").map fun byte => reading [byte]) s.store).1.executedPayloads := by
  intro o s
  have hframed : Connection.Framed [ascii "PING"] := by
    intro payload hmem
    rw [List.mem_singleton.mp hmem]
    decide
  obtain ⟨-, -, hstream⟩ := read_limit_exact o (by decide) 5 Store.empty [readable [0, 0, 0]]
    [ascii "PING"] hframed
  obtain ⟨-, -, hcompletes, -⟩ := hstream (by decide)
  apply hcompletes ⟨rfl, rfl, rfl⟩ (ascii "PING") rfl (by decide)
  · intro input hinput
    obtain ⟨byte, -, rfl⟩ := List.mem_map.mp hinput
    exact ⟨[byte], by simp, rfl⟩
  · decide
  · decide

end Session

end TinyKv
