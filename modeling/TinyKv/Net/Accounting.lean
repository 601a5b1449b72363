import Mathlib.Algebra.BigOperators.Ring.List
import Mathlib.Algebra.Order.BigOperators.Group.List
import Mathlib.Algebra.Order.Ring.Nat
import TinyKv.Net.ConnectionDialogue
import TinyKv.Net.ReactorSessions

/-!
# The books of the metrics

Every handler reports what it does to `ServerMetrics`. The reports of a connection add up to
what its trace says: nothing is reported twice, left out, or reported of what did not happen.
Pauses and resumptions of reading alternate, and a pending output above the hard limit is
never observed.
-/

namespace TinyKv

open Foundation FrameCodec

variable {Q : ExpirationQueue}

/-- The counters of `ServerMetrics` that count what connections do. -/
inductive Account where
  | bytesReceived
  | bytesSent
  | framesReceived
  | commandsProcessed
  | commandErrors
  | protocolErrors
  | slowClientDisconnects
  | commandLatencyCount
deriving DecidableEq, Repr

namespace MetricCall

/-- What a call adds to a counter. -/
def credit : MetricCall → Account → Nat
  | .addBytesReceived bytes, .bytesReceived => bytes
  | .addBytesSent bytes, .bytesSent => bytes
  | .addFramesReceived frames, .framesReceived => frames
  | .onCommandProcessed, .commandsProcessed => 1
  | .onCommandError, .commandErrors => 1
  | .onProtocolError, .protocolErrors => 1
  | .onSlowClientDisconnected, .slowClientDisconnects => 1
  | .recordCommandLatency _, .commandLatencyCount => 1
  | _, _ => 0

/-- What calls have added to a counter. -/
def booked (calls : List MetricCall) (account : Account) : Nat :=
  (calls.map (·.credit account)).sum

@[simp] theorem booked_nil (account : Account) : booked [] account = 0 := rfl

@[simp] theorem booked_cons (call : MetricCall) (calls : List MetricCall) (account : Account) :
    booked (call :: calls) account = call.credit account + booked calls account := by
  simp [booked]

@[simp] theorem booked_append (calls more : List MetricCall) (account : Account) :
    booked (calls ++ more) account = booked calls account + booked more account := by
  simp [booked]

theorem booked_flatMap {α : Type} (items : List α) (calls : α → List MetricCall)
    (account : Account) :
    booked (items.flatMap calls) account =
      (items.map fun item => booked (calls item) account).sum := by
  induction items with
  | nil => rfl
  | cons item rest ih => rw [List.flatMap_cons, booked_append, ih, List.map_cons, List.sum_cons]

/-- At most one more pause than resumptions of reading, and no fewer. -/
def InBalance (calls : List MetricCall) : Prop :=
  calls.count .onReadResumed ≤ calls.count .onReadPaused ∧
    calls.count .onReadPaused ≤ calls.count .onReadResumed + 1

/-- Pauses and resumptions of reading take turns, a pause being the first. -/
def Alternating (calls : List MetricCall) : Prop := ∀ first, first <+: calls → InBalance first

theorem Alternating.append {calls more : List MetricCall} (h : Alternating calls)
    (hmore : ∀ first, first <+: more → InBalance (calls ++ first)) :
    Alternating (calls ++ more) := by
  intro first hfirst
  rcases List.prefix_or_prefix_of_prefix hfirst (List.prefix_append calls more) with
    hbefore | ⟨rest, rfl⟩
  · exact h first hbefore
  · exact hmore rest ((List.prefix_append_right_inj calls).mp hfirst)

/-- Other calls do not matter. -/
theorem Alternating.report {calls more : List MetricCall} (h : Alternating calls)
    (hpaused : .onReadPaused ∉ more) (hresumed : .onReadResumed ∉ more) :
    Alternating (calls ++ more) := by
  apply h.append
  intro first hfirst
  have hpauses : .onReadPaused ∉ first := fun hmem => hpaused (hfirst.subset hmem)
  have hresumes : .onReadResumed ∉ first := fun hmem => hresumed (hfirst.subset hmem)
  rw [InBalance, List.count_append, List.count_append, List.count_eq_zero_of_not_mem hpauses,
    List.count_eq_zero_of_not_mem hresumes]
  exact h calls List.prefix_rfl

theorem Alternating.concat {calls : List MetricCall} (h : Alternating calls) {call : MetricCall}
    (hcall : InBalance (calls ++ [call])) : Alternating (calls ++ [call]) := by
  intro first hfirst
  rcases List.prefix_concat_iff.mp hfirst with rfl | hbefore
  · exact hcall
  · exact h first hbefore

end MetricCall

namespace Connection

open MetricCall

/-- The `recv` results that have been decoded: after a malformed header, which is the last
thing that is read, all but the one that brought it. -/
def decoded (received : List Bytes) : List Bytes :=
  if (frameParser.drain received.flatten).rejected then received.dropLast else received

/-- What the trace of a connection says of a counter. -/
def due (conn : Connection) : Account → Nat
  | .bytesReceived => conn.stream.length
  | .bytesSent => conn.trace.sent.length
  | .framesReceived => (frameParser.drain (decoded conn.trace.received).flatten).items.length
  | .commandsProcessed | .commandLatencyCount => conn.trace.executed.length
  | .commandErrors => conn.executedPayloads.countP isUnknown
  | .protocolErrors => (frameParser.drain conn.stream).rejected.toNat
  | .slowClientDisconnects => conn.trace.causes.count .slowClient

/-- The transitions to paused reading. -/
def timesPaused (conn : Connection) : Nat := conn.calls.count .onReadPaused

/-- The transitions from paused reading. -/
def timesResumed (conn : Connection) : Nat := conn.calls.count .onReadResumed

/-- The metric calls of a connection report what it has done. -/
structure Accounted (o : NetworkOptions) (conn : Connection) : Prop where
  balanced : ∀ account, booked conn.calls account = conn.due account
  alternating : Alternating conn.calls
  paused : conn.Serving →
    conn.timesPaused = conn.timesResumed + if conn.readPaused then 1 else 0
  peak : ∀ bytes, .observePendingWriteBytes bytes ∈ conn.calls → bytes ≤ o.writeHardLimitBytes

variable {o : NetworkOptions} {conn after : Connection}

theorem accounted_accepted (o : NetworkOptions) (fd : Int) : (accepted fd).Accounted o where
  balanced account := by cases account <;> rfl
  alternating first hfirst := by
    rw [List.prefix_nil.mp hfirst]
    exact ⟨le_rfl, Nat.zero_le 1⟩
  paused _ := rfl
  peak _ hmem := by cases hmem

/-- Calls that neither pause nor resume reading, and what they report. -/
theorem Accounted.report (h : conn.Accounted o) (more : List MetricCall)
    (hcalls : after.calls = conn.calls ++ more)
    (hdue : ∀ account, after.due account = conn.due account + booked more account)
    (hpaused : .onReadPaused ∉ more) (hresumed : .onReadResumed ∉ more)
    (hpeak : ∀ bytes, .observePendingWriteBytes bytes ∈ more → bytes ≤ o.writeHardLimitBytes)
    (hserving : after.Serving → conn.Serving ∧ after.readPaused = conn.readPaused) :
    after.Accounted o := by
  have hpauses : after.timesPaused = conn.timesPaused := by
    rw [timesPaused, hcalls, List.count_append, List.count_eq_zero_of_not_mem hpaused]
    rfl
  have hresumes : after.timesResumed = conn.timesResumed := by
    rw [timesResumed, hcalls, List.count_append, List.count_eq_zero_of_not_mem hresumed]
    rfl
  constructor
  · intro account
    rw [hcalls, booked_append, h.balanced account, hdue account]
  · rw [hcalls]
    exact h.alternating.report hpaused hresumed
  · intro hafter
    obtain ⟨hbefore, hflag⟩ := hserving hafter
    rw [hpauses, hresumes, hflag]
    exact h.paused hbefore
  · intro bytes hmem
    rw [hcalls] at hmem
    obtain hmem | hmem := List.mem_append.mp hmem
    · exact h.peak bytes hmem
    · exact hpeak bytes hmem

/-- A change without calls that the counters do not see. -/
theorem Accounted.silent (h : conn.Accounted o) (hcalls : after.calls = conn.calls)
    (hdue : ∀ account, after.due account = conn.due account)
    (hserving : after.Serving → conn.Serving ∧ after.readPaused = conn.readPaused) :
    after.Accounted o := by
  apply h.report []
  · rw [hcalls, List.append_nil]
  · exact fun account => hdue account
  · exact List.not_mem_nil
  · exact List.not_mem_nil
  · exact fun bytes hmem => absurd hmem List.not_mem_nil
  · exact hserving

/-- The counters see only what has been received, executed and sent, and the slow clients. -/
theorem due_congr (hreceived : after.trace.received = conn.trace.received)
    (hexecuted : after.trace.executed = conn.trace.executed)
    (hsent : after.trace.sent = conn.trace.sent)
    (hslow : after.trace.causes.count .slowClient = conn.trace.causes.count .slowClient)
    (account : Account) : after.due account = conn.due account := by
  cases account <;>
    simp only [due, stream, executedPayloads, hreceived, hexecuted, hsent, hslow]

theorem Accounted.markClosed (h : conn.Accounted o) {cause : CloseCause}
    (hcause : cause ≠ .slowClient) : (conn.markClosed cause).Accounted o := by
  apply h.silent
  · rfl
  · apply due_congr
    · rfl
    · rfl
    · rfl
    · simp [Connection.markClosed, hcause]
  · exact fun hserving => absurd hserving (not_serving_markClosed conn cause)

/-- The only place where a client is found slow counts it. -/
theorem Accounted.slowClient (h : conn.Accounted o) :
    ((conn.count .onSlowClientDisconnected).markClosed .slowClient).Accounted o := by
  have hcauses : ((conn.count .onSlowClientDisconnected).markClosed .slowClient).trace.causes =
      conn.trace.causes ++ [.slowClient] := rfl
  apply h.report [.onSlowClientDisconnected] rfl
  · intro account
    cases account <;> simp only [due, hcauses] <;>
      simp [Connection.markClosed, Connection.count, stream, executedPayloads, credit]
  · simp
  · simp
  · simp
  · exact fun hserving => absurd hserving (not_serving_markClosed _ _)

/-- `UpdateReadBackPressure` leaves a connection alone, or resumes or pauses reading. -/
theorem updateReadBackPressure_cases (o : NetworkOptions) (conn : Connection) :
    conn.updateReadBackPressure o = conn ∨
      (conn.Serving ∧ conn.readPaused = true ∧ conn.updateReadBackPressure o =
        { conn with readPaused := false }.count .onReadResumed) ∨
      (conn.Serving ∧ conn.readPaused = false ∧ conn.updateReadBackPressure o =
        { conn with readPaused := true }.count .onReadPaused) := by
  unfold Connection.updateReadBackPressure
  split
  · exact .inl rfl
  next hstopped =>
  have hserving : conn.Serving := by simpa [Serving, and_comm] using hstopped
  simp only
  split
  · next hpaused =>
    split
    · exact .inr (.inl ⟨hserving, hpaused, rfl⟩)
    · exact .inl rfl
  next hpaused =>
  split
  · exact .inr (.inr ⟨hserving, by simpa using hpaused, rfl⟩)
  · exact .inl rfl

/-- Pausing and resuming take turns. -/
theorem Accounted.updateReadBackPressure (h : conn.Accounted o) :
    (conn.updateReadBackPressure o).Accounted o := by
  have hbalanced {paused : Bool} {call : MetricCall} (hcall : ∀ account, call.credit account = 0)
      (account : Account) :
      booked (conn.calls ++ [call]) account =
        ({ conn with readPaused := paused, calls := conn.calls ++ [call] } : Connection).due
          account := by
    rw [booked_append, booked_cons, hcall, booked_nil, h.balanced account]
    exact (due_congr rfl rfl rfl rfl account).symm
  have hpeak {call : MetricCall} (hcall : ∀ bytes, call ≠ .observePendingWriteBytes bytes) :
      ∀ bytes, .observePendingWriteBytes bytes ∈ conn.calls ++ [call] →
        bytes ≤ o.writeHardLimitBytes := by
    intro bytes hmem
    obtain hmem | hmem := List.mem_append.mp hmem
    · exact h.peak bytes hmem
    · exact absurd (List.mem_singleton.mp hmem).symm (hcall bytes)
  rcases updateReadBackPressure_cases o conn with heq | ⟨hserving, hflag, heq⟩ |
    ⟨hserving, hflag, heq⟩
  · rw [heq]
    exact h
  · have hpaused := h.paused hserving
    rw [hflag, if_pos rfl, timesPaused, timesResumed] at hpaused
    rw [heq]
    constructor
    · exact hbalanced fun account => by cases account <;> rfl
    · exact h.alternating.concat (by simp [InBalance, hpaused])
    · simp [timesPaused, timesResumed, Connection.count, hpaused]
    · exact hpeak fun bytes => by simp
  · have hpaused := h.paused hserving
    simp only [hflag, Bool.false_eq_true, if_false, Nat.add_zero, timesPaused,
      timesResumed] at hpaused
    rw [heq]
    constructor
    · exact hbalanced fun account => by cases account <;> rfl
    · exact h.alternating.concat (by simp [InBalance, hpaused])
    · simp [timesPaused, timesResumed, Connection.count, hpaused]
    · exact hpeak fun bytes => by simp

/-! ### Responses -/

/-- The state `QueueResponse` leaves when it accepts, before it looks at the backpressure. -/
def appendResponse (conn : Connection) (response : Bytes) : Connection :=
  let conn := { conn with
    writeBuffer := conn.writeBuffer.append (frameOf response)
    trace.queued := conn.trace.queued ++ [response] }
  conn.count (.observePendingWriteBytes conn.writeBuffer.size)

theorem Accounted.appendResponse (h : conn.Accounted o) (response : Bytes)
    (hroom : conn.pending.length + (frameOf response).length ≤ o.writeHardLimitBytes) :
    (conn.appendResponse response).Accounted o := by
  apply h.report [.observePendingWriteBytes (conn.writeBuffer.append (frameOf response)).size] rfl
  · intro account
    rw [due_congr rfl rfl rfl rfl account]
    · cases account <;> rfl
  · simp
  · simp
  · intro bytes hmem
    cases List.mem_singleton.mp hmem
    rw [OutputBuffer.size_eq, OutputBuffer.data_append, List.length_append]
    exact hroom
  · exact fun hserving => ⟨hserving, rfl⟩

/-- Whatever becomes of a response is reported. -/
theorem Accounted.queueResponse (h : conn.Accounted o) (response : Bytes) :
    (conn.queueResponse o response).2.Accounted o := by
  unfold Connection.queueResponse
  obtain hlarge | hfits := Nat.lt_or_ge maxFrameSize response.length
  · obtain ⟨e, he⟩ := encode_of_too_large hlarge
    rw [he]
    exact h.markClosed (by decide)
  rw [encode_eq hfits]
  simp only
  split
  · exact h.slowClient
  next hroom =>
    have happended := h.appendResponse response (by
      rw [OutputBuffer.size_eq] at hroom
      change conn.writeBuffer.data.length + _ ≤ _
      omega)
    exact happended.updateReadBackPressure

/-- A connection that closes after writing reads no more. -/
theorem Accounted.closeAfterWrite (h : conn.Accounted o) :
    ({ conn with closeAfterWrite := true } : Connection).Accounted o := by
  apply h.silent
  · rfl
  · exact due_congr rfl rfl rfl rfl
  · exact fun hserving => absurd hserving (not_serving rfl)

theorem Accounted.finalResponse (h : conn.Accounted o) (response : Bytes) :
    (conn.finalResponse o response).Accounted o := by
  have hqueued := h.queueResponse response
  unfold Connection.finalResponse
  split
  · exact hqueued.closeAfterWrite
  · exact hqueued

/-- An executed payload is a processed command with a latency, and an error when it is not
known. -/
theorem Accounted.executed (h : conn.Accounted o) (payload response : Bytes) (latency : Int) :
    (conn.withExecuted payload response (charges payload latency)).Accounted o := by
  apply h.report _ rfl
  · intro account
    cases hunknown : isUnknown payload <;> cases account <;>
      simp [due, withExecuted, stream, executedPayloads, credit, charges, hunknown]
  · cases hunknown : isUnknown payload <;> simp [charges, hunknown]
  · cases hunknown : isUnknown payload <;> simp [charges, hunknown]
  · cases hunknown : isUnknown payload <;> simp [charges, hunknown]
  · exact fun hserving => ⟨hserving, rfl⟩

theorem Accounted.processPayload (h : conn.Accounted o) (ambient : Ambient Q) (store : Store Q)
    (payload : Bytes) : (conn.processPayload o ambient store payload).2.1.Accounted o := by
  have hexecuted := h.executed payload (payloadResult ambient store payload).1 ambient.latency
  have hqueued := hexecuted.queueResponse (payloadResult ambient store payload).1
  rw [processPayload_charges]
  generalize Connection.queueResponse o _ _ = result at hqueued ⊢
  obtain ⟨queued, after⟩ := result
  cases queued with
  | false => exact hqueued
  | true =>
      simp only
      split
      · exact hqueued.closeAfterWrite
      · exact hqueued

/-- A batch is reported; by induction on its payloads. -/
theorem Accounted.processPayloads (payloads : List Bytes) (ambient : Nat → Ambient Q)
    (store : Store Q) (h : conn.Accounted o) :
    (conn.processPayloads o ambient store payloads).1.Accounted o := by
  induction payloads generalizing ambient store conn with
  | nil => exact h
  | cons payload rest ih =>
      have hprocessed := h.processPayload (ambient 0) store payload
      unfold Connection.processPayloads
      generalize conn.processPayload o (ambient 0) store payload = result at hprocessed ⊢
      obtain ⟨goes, after, store'⟩ := result
      cases goes with
      | false => exact hprocessed
      | true => exact ih _ store' hprocessed

/-! ### Reading -/

theorem decoded_of_accepted {received : List Bytes}
    (h : (frameParser.drain received.flatten).rejected = false) : decoded received = received := by
  rw [decoded, h]
  rfl

/-- The frames and the malformed header of one more `recv` result. -/
theorem decoded_append {received : List Bytes} {buffer : Bytes}
    (haccepted : (frameParser.drain received.flatten).rejected = false)
    (hbuffer : buffer = (frameParser.drain received.flatten).rest) (bytes : Bytes) :
    (frameParser.drain (decoded (received ++ [bytes])).flatten).items.length =
        (frameParser.drain (decoded received).flatten).items.length +
          (if (frameParser.drain (buffer ++ bytes)).rejected then 0
            else (frameParser.drain (buffer ++ bytes)).items.length) ∧
      (frameParser.drain (received.flatten ++ bytes)).rejected =
        (frameParser.drain (buffer ++ bytes)).rejected := by
  have hdrain := frameParser.drain_append haccepted bytes
  have hflatten : (received ++ [bytes]).flatten = received.flatten ++ bytes := by simp
  rw [← hbuffer] at hdrain
  rw [decoded_of_accepted haccepted, decoded, hflatten, hdrain]
  refine ⟨?_, rfl⟩
  cases (frameParser.drain (buffer ++ bytes)).rejected with
  | true => simp
  | false =>
      simp only [Bool.false_eq_true, if_false]
      rw [hflatten, hdrain, List.length_append]

/-- What is read is reported, with its frames or its malformed header. -/
theorem Accounted.withInput (h : conn.Accounted o) (hparsed : conn.Parsed)
    (hserving : conn.Serving) (bytes : Bytes) {rejected : Bool}
    (hrejected : (frameParser.drain (conn.readBuffer ++ bytes)).rejected = rejected) :
    (conn.withInput bytes
      (if rejected then .onProtocolError
        else .addFramesReceived (frameParser.drain (conn.readBuffer ++ bytes)).items.length)
      ).Accounted o := by
  obtain ⟨haccepted, hbuffer, -⟩ := hparsed hserving
  rw [stream] at haccepted hbuffer
  obtain ⟨hframes, herrors⟩ := decoded_append haccepted hbuffer bytes
  rw [hrejected] at hframes herrors
  apply h.report _ rfl
  · intro account
    cases rejected <;> cases account <;>
      simp [due, Connection.withInput, stream, executedPayloads, credit, haccepted, hframes,
        herrors]
  · cases rejected <;> simp
  · cases rejected <;> simp
  · cases rejected <;> simp
  · exact fun hafter => ⟨hserving, rfl⟩

/-- Reading a batch. -/
theorem Accounted.receiveBytes (h : conn.Accounted o) (hparsed : conn.Parsed)
    (hserving : conn.Serving) (ambient : Nat → Ambient Q) (store : Store Q) (bytes : Bytes) :
    (conn.receiveBytes o ambient store bytes).1.Accounted o := by
  cases hrejected : (frameParser.drain (conn.readBuffer ++ bytes)).rejected with
  | true =>
      rw [receiveBytes_rejected hrejected]
      exact (h.withInput hparsed hserving bytes hrejected).finalResponse _
  | false =>
      rw [receiveBytes_accepted hrejected]
      exact (h.withInput hparsed hserving bytes hrejected).processPayloads _ ambient store

theorem Accounted.rejectOversizedReadBuffer (h : conn.Accounted o) :
    (conn.rejectOversizedReadBuffer o).Accounted o := by
  have hqueued := h.queueResponse (ascii "-ERR request buffer too large")
  rw [rejectOversizedReadBuffer_eq]
  split
  · exact hqueued.closeAfterWrite
  · exact hqueued.markClosed (by decide)

theorem Accounted.handleClientRead (h : conn.Accounted o) (hparsed : conn.Parsed)
    (input : IoInput Q) (store : Store Q) :
    (conn.handleClientRead o input store).1.Accounted o := by
  by_cases hreading : conn.Reading
  swap
  · rw [handleClientRead_refused hreading]
    exact h
  have houtcome := handleClientRead_outcome hreading o input store
  generalize conn.handleClientRead o input store = result at houtcome ⊢
  cases houtcome with
  | oversized hfull => exact h.rejectOversizedReadBuffer
  | ended hroom hrecv hnil =>
      rw [receiveEnd_eq]
      have hclosed : (conn.markClosed .endOfInput).Accounted o := h.markClosed (by decide)
      exact hclosed.markClosed (by decide)
  | bytes hroom hrecv hnil =>
      exact h.receiveBytes hparsed ⟨hreading.opened, hreading.serving⟩ input.ambient store _
  | wouldBlock hrecv => exact h
  | failed hrecv => exact h.markClosed (by decide)

/-! ### Frames and commands -/

/-- No more commands are processed than frames have been counted. -/
def Batched (conn : Connection) : Prop :=
  conn.trace.executed.length ≤
    (frameParser.drain (decoded conn.trace.received).flatten).items.length

theorem Batched.congr (h : conn.Batched) (hreceived : after.trace.received = conn.trace.received)
    (hexecuted : after.trace.executed = conn.trace.executed) : after.Batched := by
  rw [Batched, hreceived, hexecuted]
  exact h

/-- The frames of one `recv` result are counted before the first is processed. -/
theorem batched_receiveBytes (h : conn.Conversed o) (hserving : conn.Serving)
    (ambient : Nat → Ambient Q) (store : Store Q) (bytes : Bytes) :
    (conn.receiveBytes o ambient store bytes).1.Batched := by
  obtain ⟨haccepted, hbuffer, hexecuted⟩ := h.parsed hserving
  have hreceived := received_receiveBytes o ambient store hserving.1 hserving.2 bytes
  rw [stream] at haccepted hbuffer
  obtain ⟨hframes, -⟩ := decoded_append haccepted hbuffer bytes
  have hlength : conn.trace.executed.length =
      (frameParser.drain (decoded conn.trace.received).flatten).items.length := by
    rw [decoded_of_accepted haccepted, ← stream, ← hexecuted, executedPayloads, List.length_map]
  rw [Batched, hreceived.received, hframes, ← hlength]
  cases hrejected : (frameParser.drain (conn.readBuffer ++ bytes)).rejected with
  | true =>
      have hsame := executedPayloads_finalResponse o (conn.withInput bytes .onProtocolError)
        (ascii "-ERR protocol error")
      have hcount := congrArg List.length hsame
      simp only [executedPayloads, List.length_map] at hcount
      rw [receiveBytes_rejected hrejected, hcount]
      exact Nat.le_add_right ..
  | false =>
      obtain ⟨done, hdone, hpayloads, -, -⟩ := replies_processPayloads o
        (frameParser.drain (conn.readBuffer ++ bytes)).items ambient store
        (conn.withInput bytes
          (.addFramesReceived (frameParser.drain (conn.readBuffer ++ bytes)).items.length))
        (h.intact.queued_eq hserving)
      have hle := hpayloads.length_le
      rw [List.length_map] at hle
      rw [receiveBytes_accepted hrejected, hdone, List.length_append]
      exact Nat.add_le_add_left hle _

theorem Batched.handleClientRead (hbatched : conn.Batched) (h : conn.Conversed o)
    (input : IoInput Q) (store : Store Q) : (conn.handleClientRead o input store).1.Batched := by
  by_cases hreading : conn.Reading
  swap
  · rw [handleClientRead_refused hreading]
    exact hbatched
  have houtcome := handleClientRead_outcome hreading o input store
  generalize conn.handleClientRead o input store = result at houtcome ⊢
  cases houtcome with
  | oversized hfull =>
      rw [rejectOversizedReadBuffer_eq]
      rcases queueResponse_cases o conn (ascii "-ERR request buffer too large") with
        ⟨cause, calls, -, -, heq⟩ | ⟨paused, calls, -, -, -, heq⟩
      · rw [heq]
        exact hbatched.congr rfl rfl
      · rw [heq]
        exact hbatched.congr rfl rfl
  | ended hroom hrecv hnil =>
      rw [receiveEnd_eq]
      exact hbatched.congr rfl rfl
  | bytes hroom hrecv hnil =>
      exact batched_receiveBytes h ⟨hreading.opened, hreading.serving⟩ input.ambient store _
  | wouldBlock hrecv => exact hbatched
  | failed hrecv => exact hbatched.congr rfl rfl

theorem Batched.delivers (h : conn.Batched) (hdelivers : Delivers conn after) : after.Batched :=
  h.congr hdelivers.received hdelivers.executed

theorem Batched.handleEvent (hbatched : conn.Batched) (h : conn.Conversed o) (state : ServerState)
    (events : IoEvent) (input : IoInput Q) (store : Store Q) :
    (conn.handleEvent o state events input store).1.1.Batched := by
  rw [handleEvent_cases]
  split
  · exact hbatched.congr rfl rfl
  split
  · exact (hbatched.handleClientRead h input store).delivers (delivers_afterRead o events input _)
  · exact hbatched.delivers (delivers_afterRead o events input conn)

theorem headers_le_length (items : List Bytes) :
    headerSize * items.length ≤ (items.flatMap frameOf).length := by
  induction items with
  | nil => simp
  | cons payload rest ih =>
      rw [List.length_cons, List.flatMap_cons, List.length_append, length_frameOf, Nat.mul_add_one]
      omega

/-- Every frame that is counted has brought its header. -/
theorem headers_le_received (received : List Bytes) :
    headerSize * (frameParser.drain (decoded received).flatten).items.length ≤
      received.flatten.length := by
  have hstream := congrArg List.length (drain_rebuild (decoded received).flatten)
  rw [List.length_append] at hstream
  have hle : (decoded received).flatten.length ≤ received.flatten.length := by
    unfold decoded
    split
    · obtain ⟨last, hlast⟩ := List.dropLast_prefix received
      have hflatten := congrArg (fun chunks => chunks.flatten.length) hlast
      simp only [List.flatten_append, List.length_append] at hflatten
      omega
    · exact le_rfl
  have hheaders := headers_le_length (frameParser.drain (decoded received).flatten).items
  omega

/-! ### Delivering -/

/-- What `send` has taken is reported. -/
theorem Accounted.sendBytes (h : conn.Accounted o) {bytes : Nat}
    (hle : bytes ≤ conn.writeBuffer.size) : (conn.sendBytes o bytes hle).Accounted o := by
  have hsent : ({ conn with
      trace.sent := conn.trace.sent ++ conn.writeBuffer.data.take bytes
      writeBuffer := conn.writeBuffer.advance bytes hle
      calls := conn.calls ++ [MetricCall.addBytesSent bytes] } : Connection).Accounted o := by
    apply h.report [.addBytesSent bytes] rfl
    · intro account
      have hlength : (conn.writeBuffer.data.take bytes).length = bytes := by
        rw [List.length_take, ← OutputBuffer.size_eq]
        omega
      cases account <;> simp [due, stream, executedPayloads, credit, hlength]
    · simp
    · simp
    · simp
    · exact fun hserving => ⟨hserving, rfl⟩
  have hupdated := hsent.updateReadBackPressure
  unfold Connection.sendBytes
  simp only
  split
  · exact hupdated.markClosed (by decide)
  · exact hupdated

theorem Accounted.handleClientWrite (h : conn.Accounted o) (input : IoInput Q) :
    (conn.handleClientWrite o input).Accounted o := by
  have hupdated := h.updateReadBackPressure
  unfold Connection.handleClientWrite
  split
  · exact h
  split
  · simp only
    split
    · exact hupdated.markClosed (by decide)
    · exact hupdated
  simp only
  cases input.send.result with
  | accepted bytes =>
      simp only
      split
      · exact h.sendBytes _
      · exact h.markClosed (by decide)
  | wouldBlock => exact h
  | failed => exact h.markClosed (by decide)

/-- A connection that has heard the last of its client reads no more. -/
theorem Accounted.hangUp (h : conn.Accounted o) : conn.hangUp.Accounted o := by
  have hflags : ({ conn with
      readPaused := true, closeAfterWrite := true, trace.hungUp := true } :
      Connection).Accounted o := by
    apply h.silent
    · rfl
    · exact due_congr rfl rfl rfl rfl
    · exact fun hserving => absurd hserving (not_serving rfl)
  unfold Connection.hangUp
  simp only
  split
  · exact hflags.markClosed (by decide)
  · exact hflags

theorem Accounted.refreshInterest (h : conn.Accounted o) :
    (conn.refreshInterest o).1.Accounted o := by
  have hupdated := h.updateReadBackPressure
  unfold Connection.refreshInterest
  split
  · exact h
  simp only
  split
  · exact hupdated.markClosed (by decide)
  split
  · exact hupdated.markClosed (by decide)
  split
  · exact hupdated
  · exact hupdated

theorem Accounted.afterRead (h : conn.Accounted o) (events : IoEvent) (input : IoInput Q) :
    (conn.afterRead o events input).1.Accounted o := by
  unfold Connection.afterRead
  have hwrite : (if !conn.closed && events.write then conn.handleClientWrite o input
      else conn).Accounted o :=
    iteInduction (fun _ => h.handleClientWrite input) fun _ => h
  generalize (if !conn.closed && events.write then conn.handleClientWrite o input else conn) =
    conn₁ at hwrite
  have hhang : (if !conn₁.closed && events.hangup then conn₁.hangUp else conn₁).Accounted o :=
    iteInduction (fun _ => hwrite.hangUp) fun _ => hwrite
  simp only
  generalize (if !conn₁.closed && events.hangup then conn₁.hangUp else conn₁) = conn₂ at hhang
  split
  · exact hhang.refreshInterest
  · exact hhang

theorem Accounted.handleEvent (h : conn.Accounted o) (hparsed : conn.Parsed) (state : ServerState)
    (events : IoEvent) (input : IoInput Q) (store : Store Q) :
    (conn.handleEvent o state events input store).1.1.Accounted o := by
  rw [handleEvent_cases]
  split
  · exact h.markClosed (by decide)
  split
  · exact (h.handleClientRead hparsed input store).afterRead events input
  · exact h.afterRead events input

theorem Accounted.beginDrain (h : conn.Accounted o) : (conn.beginDrain o).1.Accounted o := by
  have hflags : ({ conn with readPaused := true, closeAfterWrite := true } :
      Connection).Accounted o := by
    apply h.silent
    · rfl
    · exact due_congr rfl rfl rfl rfl
    · exact fun hserving => absurd hserving (not_serving rfl)
  unfold Connection.beginDrain
  simp only
  split
  · exact hflags.markClosed (by decide)
  · exact hflags.refreshInterest

theorem Accounted.register (h : conn.Accounted o) (events : IoEvent) :
    ({ conn with registeredEvents := events } : Connection).Accounted o := by
  apply h.silent
  · rfl
  · exact due_congr rfl rfl rfl rfl
  · exact fun hserving => ⟨hserving, rfl⟩

end Connection

/-! ### Sessions -/

namespace Session

theorem accounted_step {o : NetworkOptions} {s : Session Q} (hparsed : s.conn.Parsed)
    (h : s.conn.Accounted o) (event : SessionEvent Q) : (s.step o event).conn.Accounted o := by
  rcases step_conn o s event with heq | ⟨reason, heq⟩ | ⟨registered, heq⟩ |
    ⟨events, input, registered, -, heq⟩
  · rw [heq]
    exact h
  · rw [heq]
    cases reason with
    | deadline => exact h.markClosed (by decide)
    | forceStop => exact h.markClosed (by decide)
  · rw [heq]
    exact h.beginDrain.register registered
  · rw [heq]
    exact (h.handleEvent hparsed s.phase events input s.store).register registered

theorem batched_step {o : NetworkOptions} {s : Session Q} (hconversed : s.conn.Conversed o)
    (h : s.conn.Batched) (event : SessionEvent Q) : (s.step o event).conn.Batched := by
  rcases step_conn o s event with heq | ⟨reason, heq⟩ | ⟨registered, heq⟩ |
    ⟨events, input, registered, -, heq⟩
  · rw [heq]
    exact h
  · rw [heq]
    exact h.congr rfl rfl
  · rw [heq]
    exact h.delivers ((Connection.delivers_beginDrain o s.conn).trans (.register _ registered))
  · rw [heq]
    exact (h.handleEvent hconversed s.phase events input s.store).delivers (.register _ registered)

/-- The books of a session are right at any time. -/
theorem accounted_run (o : NetworkOptions) (fd : Int) (store : Store Q)
    (events : List (SessionEvent Q)) :
    ((start fd store).run o events).conn.Accounted o ∧
      ((start fd store).run o events).conn.Batched := by
  have hall : ((start fd store).run o events).conn.Conversed o ∧
      ((start fd store).run o events).conn.Accounted o ∧
      ((start fd store).run o events).conn.Batched := by
    apply (machine o).run_invariant
      (I := fun s => s.conn.Conversed o ∧ s.conn.Accounted o ∧ s.conn.Batched)
    · rintro s ⟨hconversed, haccounted, hbatched⟩ event -
      exact ⟨conversed_step hconversed event, accounted_step hconversed.parsed haccounted event,
        batched_step hconversed hbatched event⟩
    · exact ⟨Connection.conversed_accepted o fd, Connection.accounted_accepted o fd,
        Nat.zero_le _⟩
  exact hall.2

end Session

/-! ### Servers -/

namespace TcpServer

/-- In every run of a server, what its connections have reported to each counter is what they
have done: the bytes they have received and sent, the frames and malformed headers they have
decoded, the commands they have executed, the unknown ones among them, and the clients found
slow. So no counter of a later stage passes that of an earlier one. Every connection reports
pauses and resumptions of reading in turns, the first a pause, and so there are at most as many
more pauses as connections. No pending output above the hard limit is ever observed. -/
theorem metrics_accounted (c : ServerSetup) (store : Store Q)
    (actions : List (TcpServer.Action Q)) :
    let s := (created c store).run c actions
    let calls := s.connections.flatMap (·.calls)
    (∀ account, MetricCall.booked calls account =
        (s.connections.map fun conn => conn.due account).sum) ∧
      MetricCall.booked calls .commandErrors ≤ MetricCall.booked calls .commandsProcessed ∧
      MetricCall.booked calls .commandsProcessed ≤ MetricCall.booked calls .framesReceived ∧
      headerSize * MetricCall.booked calls .framesReceived ≤
        MetricCall.booked calls .bytesReceived ∧
      (∀ conn ∈ s.connections, MetricCall.Alternating conn.calls) ∧
      calls.count .onReadResumed ≤ calls.count .onReadPaused ∧
      calls.count .onReadPaused ≤ calls.count .onReadResumed + s.connections.length ∧
      ∀ bytes, .observePendingWriteBytes bytes ∈ calls →
        bytes ≤ c.networkOptions.writeHardLimitBytes := by
  intro s calls
  have hconnections : ∀ conn ∈ s.connections,
      conn.Accounted c.networkOptions ∧ conn.Batched :=
    connections_run c (Session.accounted_run c.networkOptions) store actions
  have hbalanced (account : Account) : MetricCall.booked calls account =
      (s.connections.map fun conn => conn.due account).sum := by
    rw [MetricCall.booked_flatMap]
    congr 1
    apply List.map_congr_left
    exact fun conn hmem => (hconnections conn hmem).1.balanced account
  have hpauses : calls.count .onReadPaused = (s.connections.map Connection.timesPaused).sum :=
    List.count_flatMap
  have hresumes : calls.count .onReadResumed = (s.connections.map Connection.timesResumed).sum :=
    List.count_flatMap
  have halternating (conn : Connection) (hmem : conn ∈ s.connections) :
      MetricCall.Alternating conn.calls := (hconnections conn hmem).1.alternating
  refine ⟨hbalanced, ?_, ?_, ?_, halternating, ?_, ?_, ?_⟩
  · rw [hbalanced, hbalanced]
    apply List.sum_le_sum
    intro conn hmem
    have hle := List.countP_le_length (p := Connection.isUnknown) (l := conn.executedPayloads)
    rw [Connection.executedPayloads, List.length_map] at hle
    exact hle
  · rw [hbalanced, hbalanced]
    exact List.sum_le_sum fun conn hmem => (hconnections conn hmem).2
  · rw [hbalanced, hbalanced, ← List.sum_map_mul_left]
    exact List.sum_le_sum fun conn _ => Connection.headers_le_received conn.trace.received
  · rw [hpauses, hresumes]
    exact List.sum_le_sum fun conn hmem => (halternating conn hmem _ List.prefix_rfl).1
  · have hone : (s.connections.map fun conn => conn.timesResumed + 1).sum =
        (s.connections.map Connection.timesResumed).sum + s.connections.length := by
      simp [List.sum_map_add]
    rw [hpauses, hresumes, ← hone]
    exact List.sum_le_sum fun conn hmem => (halternating conn hmem _ List.prefix_rfl).2
  · intro bytes hmem
    obtain ⟨conn, hconn, hmem⟩ := List.mem_flatMap.mp hmem
    exact (hconnections conn hconn).1.peak bytes hmem

end TcpServer

end TinyKv
