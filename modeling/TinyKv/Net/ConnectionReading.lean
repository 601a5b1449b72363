import TinyKv.Net.ConnectionDelivery

/-!
# What reading does

`QueueResponse` either refuses a response and closes the connection, or appends its
frame. `ProcessPayload` executes one payload and queues its response; a batch stops at
the first refusal or after QUIT.
-/

namespace TinyKv

variable {Q : ExpirationQueue}

namespace Connection

open FrameCodec

/-- The payload is a QUIT command, after which nothing is executed. -/
def isQuit (payload : Bytes) : Bool :=
  decide ((CommandParser.parseCommand payload).type = .quit)

/-- Why `QueueResponse` closes a connection: the frame of the response passes the hard
limit, or there is no frame for it. -/
def Refusal (o : NetworkOptions) (conn : Connection) (response : Bytes) (cause : CloseCause) :
    Prop :=
  (cause = .slowClient ∧ response.length ≤ maxFrameSize ∧
    o.writeHardLimitBytes < conn.pending.length + (frameOf response).length) ∨
  (cause = .unencodable ∧ maxFrameSize < response.length)

/-- A connection to which `QueueResponse` has appended a response. -/
def withResponse (conn : Connection) (response : Bytes) (paused : Bool)
    (calls : List MetricCall) : Connection :=
  { conn with
    writeBuffer := conn.writeBuffer.append (frameOf response)
    trace.queued := conn.trace.queued ++ [response]
    readPaused := paused
    calls := conn.calls ++ calls }

theorem queueResponse_cases (o : NetworkOptions) (conn : Connection) (response : Bytes) :
    (∃ cause calls, Refusal o conn response cause ∧ Uncounted calls ∧
      conn.queueResponse o response =
        (false, { conn with calls := conn.calls ++ calls }.markClosed cause)) ∨
    (∃ paused calls, response.length ≤ maxFrameSize ∧
      conn.pending.length + (frameOf response).length ≤ o.writeHardLimitBytes ∧
      Uncounted calls ∧
      conn.queueResponse o response = (true, conn.withResponse response paused calls)) := by
  unfold queueResponse
  obtain hlarge | hfits := Nat.lt_or_ge maxFrameSize response.length
  · obtain ⟨e, he⟩ := encode_of_too_large hlarge
    rw [he]
    exact .inl ⟨.unencodable, [], .inr ⟨rfl, hlarge⟩, by simp [Uncounted], by simp⟩
  · rw [encode_eq hfits]
    simp only
    split
    · next hroom =>
      refine .inl ⟨.slowClient, [.onSlowClientDisconnected], .inl ⟨rfl, hfits, ?_⟩,
        by simp [Uncounted, MetricCall.bytesSent], rfl⟩
      rw [OutputBuffer.size_eq] at hroom
      change _ < conn.writeBuffer.data.length + _
      omega
    next hroom =>
      obtain ⟨paused, calls, heq, hcalls⟩ := updateReadBackPressure_eq o
        ({ conn with
          writeBuffer := conn.writeBuffer.append (frameOf response)
          trace.queued := conn.trace.queued ++ [response] }.count
            (.observePendingWriteBytes (conn.writeBuffer.append (frameOf response)).size))
      refine .inr ⟨paused,
        .observePendingWriteBytes (conn.writeBuffer.append (frameOf response)).size :: calls,
        hfits, ?_, ?_, ?_⟩
      · rw [OutputBuffer.size_eq] at hroom
        change conn.writeBuffer.data.length + _ ≤ _
        omega
      · intro call hcall
        obtain rfl | hcall := List.mem_cons.mp hcall
        · simp [MetricCall.bytesSent]
        · exact hcalls call hcall
      · rw [heq]
        simp [withResponse, count]

/-- A final response, after which the connection is to close. -/
def finalResponse (o : NetworkOptions) (conn : Connection) (response : Bytes) : Connection :=
  if (conn.queueResponse o response).1 then
    { (conn.queueResponse o response).2 with closeAfterWrite := true }
  else
    (conn.queueResponse o response).2

theorem finalResponse_cases (o : NetworkOptions) (conn : Connection) (response : Bytes) :
    (∃ cause calls, Refusal o conn response cause ∧ Uncounted calls ∧
      conn.finalResponse o response =
        { conn with calls := conn.calls ++ calls }.markClosed cause) ∨
    (∃ paused calls, response.length ≤ maxFrameSize ∧ Uncounted calls ∧
      conn.finalResponse o response =
        { conn.withResponse response paused calls with closeAfterWrite := true }) := by
  unfold finalResponse
  rcases queueResponse_cases o conn response with
    ⟨cause, calls, hrefusal, hcalls, heq⟩ | ⟨paused, calls, hfits, -, hcalls, heq⟩
  · exact .inl ⟨cause, calls, hrefusal, hcalls, by rw [heq]; rfl⟩
  · exact .inr ⟨paused, calls, hfits, hcalls, by rw [heq]; rfl⟩

theorem rejectOversizedReadBuffer_eq (o : NetworkOptions) (conn : Connection) :
    conn.rejectOversizedReadBuffer o =
      if (conn.queueResponse o (ascii "-ERR request buffer too large")).1 then
        { (conn.queueResponse o (ascii "-ERR request buffer too large")).2 with
          closeAfterWrite := true }
      else
        (conn.queueResponse o (ascii "-ERR request buffer too large")).2.markClosed
          .oversized := by
  unfold rejectOversizedReadBuffer
  generalize conn.queueResponse o (ascii "-ERR request buffer too large") = result
  obtain ⟨queued, after⟩ := result
  cases queued with
  | false => rfl
  | true => rfl

/-- The connection after `DecodeInput` and the metric calls for it. -/
def withInput (conn : Connection) (bytes : Bytes) (call : MetricCall) : Connection :=
  { conn with
    readBuffer := (frameParser.drain (conn.readBuffer ++ bytes)).rest
    calls := conn.calls ++ [.addBytesReceived bytes.length, call]
    trace.received := conn.trace.received ++ [bytes] }

theorem receiveBytes_rejected {conn : Connection} {bytes : Bytes}
    (h : (frameParser.drain (conn.readBuffer ++ bytes)).rejected = true) (o : NetworkOptions)
    (ambient : Nat → Ambient Q) (store : Store Q) :
    conn.receiveBytes o ambient store bytes =
      ((conn.withInput bytes .onProtocolError).finalResponse o (ascii "-ERR protocol error"),
        store) := by
  have hstate : conn.withInput bytes .onProtocolError = { conn with
      readBuffer := (frameParser.drain (conn.readBuffer ++ bytes)).rest
      calls := conn.calls ++ [.addBytesReceived bytes.length] ++ [.onProtocolError]
      trace.received := conn.trace.received ++ [bytes] } := by simp [withInput]
  rw [hstate]
  simp only [receiveBytes, count, decodeInput_eq, decodeResult, h, if_true, finalResponse]
  generalize queueResponse o _ (ascii "-ERR protocol error") = result
  obtain ⟨queued, after⟩ := result
  cases queued with
  | false => rfl
  | true => rfl

theorem receiveBytes_accepted {conn : Connection} {bytes : Bytes}
    (h : (frameParser.drain (conn.readBuffer ++ bytes)).rejected = false) (o : NetworkOptions)
    (ambient : Nat → Ambient Q) (store : Store Q) :
    conn.receiveBytes o ambient store bytes =
      (conn.withInput bytes
        (.addFramesReceived (frameParser.drain (conn.readBuffer ++ bytes)).items.length)
        ).processPayloads o ambient store
          (frameParser.drain (conn.readBuffer ++ bytes)).items := by
  simp [receiveBytes, withInput, count, decodeInput_eq, decodeResult, h]

/-- The connection after its metrics and its trace have recorded an executed payload. -/
def withExecuted (conn : Connection) (payload response : Bytes) (calls : List MetricCall) :
    Connection :=
  { conn with
    calls := conn.calls ++ calls
    trace.executed := conn.trace.executed ++ [(payload, response)] }

/-- The response `ProcessPayload` computes, and the store it leaves. -/
def payloadResult (ambient : Ambient Q) (store : Store Q) (payload : Bytes) :
    Bytes × Store Q :=
  respond ambient (ambient.interfere store) (CommandParser.parseCommand payload)

/-- The payload is no command the server knows. -/
def isUnknown (payload : Bytes) : Bool :=
  decide ((CommandParser.parseCommand payload).type = .unknown)

/-- The metric calls for an executed payload. -/
def charges (payload : Bytes) (latency : Int) : List MetricCall :=
  .onCommandProcessed :: (if isUnknown payload then [.onCommandError] else []) ++
    [.recordCommandLatency latency]

theorem uncounted_charges (payload : Bytes) (latency : Int) :
    Uncounted (charges payload latency) := by
  intro call hcall
  simp only [charges, List.cons_append, List.mem_cons, List.mem_append, List.not_mem_nil,
    or_false] at hcall
  obtain rfl | hcall | rfl := hcall
  · simp [MetricCall.bytesSent]
  · split at hcall
    · rw [List.mem_singleton.mp hcall]
      simp [MetricCall.bytesSent]
    · cases hcall
  · simp [MetricCall.bytesSent]

/-- The metric calls of `ProcessPayload` one after the other, and its execution. -/
theorem withExecuted_charges (conn : Connection) (payload response : Bytes) (latency : Int) :
    conn.withExecuted payload response (charges payload latency) =
      (let counted := conn.count .onCommandProcessed
       let counted :=
         if (CommandParser.parseCommand payload).type = .unknown then
           counted.count .onCommandError
         else
           counted
       let counted := counted.count (.recordCommandLatency latency)
       { counted with trace.executed := counted.trace.executed ++ [(payload, response)] }) := by
  by_cases hunknown : (CommandParser.parseCommand payload).type = .unknown
  · simp [withExecuted, charges, isUnknown, count, hunknown]
  · simp [withExecuted, charges, isUnknown, count, hunknown]

/-- `ProcessPayload` queues the response after its metric calls and its execution. -/
theorem processPayload_charges (o : NetworkOptions) (ambient : Ambient Q) (store : Store Q)
    (conn : Connection) (payload : Bytes) :
    conn.processPayload o ambient store payload =
      match (conn.withExecuted payload (payloadResult ambient store payload).1
          (charges payload ambient.latency)).queueResponse o
            (payloadResult ambient store payload).1 with
      | (false, conn) => (false, conn, (payloadResult ambient store payload).2)
      | (true, conn) =>
          if isQuit payload then
            (false, { conn with closeAfterWrite := true }, (payloadResult ambient store payload).2)
          else
            (true, conn, (payloadResult ambient store payload).2) := by
  simp only [isQuit, decide_eq_true_eq]
  rw [withExecuted_charges]
  rfl

theorem processPayload_eq (o : NetworkOptions) (ambient : Ambient Q) (store : Store Q)
    (conn : Connection) (payload : Bytes) :
    ∃ before, Uncounted before ∧ conn.processPayload o ambient store payload =
      match (conn.withExecuted payload (payloadResult ambient store payload).1
          before).queueResponse o (payloadResult ambient store payload).1 with
      | (false, conn) => (false, conn, (payloadResult ambient store payload).2)
      | (true, conn) =>
          if isQuit payload then
            (false, { conn with closeAfterWrite := true },
              (payloadResult ambient store payload).2)
          else
            (true, conn, (payloadResult ambient store payload).2) :=
  ⟨charges payload ambient.latency, uncounted_charges payload ambient.latency,
    processPayload_charges o ambient store conn payload⟩

theorem processPayload_cases (o : NetworkOptions) (ambient : Ambient Q) (store : Store Q)
    (conn : Connection) (payload : Bytes) :
    (∃ cause calls, Refusal o conn (payloadResult ambient store payload).1 cause ∧
      Uncounted calls ∧
      conn.processPayload o ambient store payload =
        (false, (conn.withExecuted payload (payloadResult ambient store payload).1
            calls).markClosed cause, (payloadResult ambient store payload).2)) ∨
    (∃ paused before calls, (payloadResult ambient store payload).1.length ≤ maxFrameSize ∧
      conn.pending.length + (frameOf (payloadResult ambient store payload).1).length ≤
        o.writeHardLimitBytes ∧ Uncounted before ∧ Uncounted calls ∧
      conn.processPayload o ambient store payload =
        (!isQuit payload,
          { (conn.withExecuted payload (payloadResult ambient store payload).1
              before).withResponse (payloadResult ambient store payload).1 paused calls with
            closeAfterWrite := conn.closeAfterWrite || isQuit payload },
          (payloadResult ambient store payload).2)) := by
  obtain ⟨before, hbefore, hqueue⟩ := processPayload_eq o ambient store conn payload
  generalize payloadResult ambient store payload = result at hqueue ⊢
  rcases queueResponse_cases o (conn.withExecuted payload result.1 before) result.1 with
    ⟨cause, calls, hrefusal, hcalls, heq⟩ | ⟨paused, calls, hfits, hroom, hcalls, heq⟩
  · refine .inl ⟨cause, before ++ calls, hrefusal, hbefore.append hcalls, ?_⟩
    rw [hqueue, heq]
    simp [withExecuted]
  · refine .inr ⟨paused, before, calls, hfits, hroom, hbefore, hcalls, ?_⟩
    rw [hqueue, heq]
    cases hquit : isQuit payload <;> simp [withResponse, withExecuted]

end Connection

end TinyKv
