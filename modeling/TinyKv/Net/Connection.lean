import TinyKv.Common.ServerInfo
import TinyKv.Core.CommandExecutor
import TinyKv.Net.OutputBuffer
import TinyKv.Net.Poller
import TinyKv.Observability.ServerMetrics

/-!
# The connection handlers

What `SubReactor` does with one connection while it handles one ready event. A handler
is a function of the connection, the store and the answers of the system calls; it is
translated statement by statement.

`Trace` records what the handlers did. It is read by no handler.
-/

namespace TinyKv

variable {Q : ExpirationQueue}

/-- The place `MarkClosed` was called from. -/
inductive CloseCause where
  | errorEvent
  | endOfInput
  | recvFailed
  | sendFailed
  | unencodable
  | slowClient
  | oversized
  | flushed
  | hangup
  | noInterest
  | drained
  | deadline
  | forceStop
deriving DecidableEq, Repr

/-- What the handlers of a connection have done so far, each list oldest first: the
results of `recv`, the payloads passed to `ProcessPayload` with their responses, the
responses appended to the write buffer, and the bytes `send` took. -/
structure Trace where
  received : List Bytes := []
  executed : List (Bytes × Bytes) := []
  queued : List Bytes := []
  sent : Bytes := []
  hungUp : Bool := false
  causes : List CloseCause := []
deriving DecidableEq

/-- `SubReactor::Connection`, with the metric calls made on its behalf and its trace. -/
structure Connection where
  fd : Int
  readBuffer : Bytes := []
  writeBuffer : OutputBuffer := .empty
  readPaused : Bool := false
  closeAfterWrite : Bool := false
  closed : Bool := false
  registeredEvents : IoEvent := .none
  calls : List MetricCall := []
  trace : Trace := {}

/-- A system call that is repeated while it fails with `EINTR`. -/
inductive Syscall (α : Type) where
  | interrupted (again : Syscall α)
  | returned (result : α)

/-- The answer the `do … while` loop around the call ends with. -/
def Syscall.result {α : Type} : Syscall α → α
  | .interrupted again => again.result
  | .returned result => result

/-- An answer of `recv`: the bytes the kernel has ready, of which it hands out as many as
were asked for; none when the peer has shut down its side. -/
inductive RecvResult where
  | bytes (ready : Bytes)
  | wouldBlock
  | failed

/-- An answer of `send`; the kernel takes at most the bytes it is offered. -/
inductive SendResult where
  | accepted (bytes : Nat)
  | wouldBlock
  | failed

/-- What the other threads and the clock contribute to the execution of one payload:
what they do to the store before it, the clock reading, the text of a STATS response,
which prints counters of all threads, and the measured latency. -/
structure Ambient (Q : ExpirationQueue) where
  interfere : Store Q → Store Q
  now : TimePoint
  statsResponse : Bytes
  latency : Int

/-- What the outside contributes to the handling of one ready event; `ambient i` belongs
to the `i`-th payload of the event. -/
structure IoInput (Q : ExpirationQueue) where
  recv : Syscall RecvResult
  send : Syscall SendResult
  ambient : Nat → Ambient Q

namespace Connection

/-- A metric call. -/
def count (conn : Connection) (call : MetricCall) : Connection :=
  { conn with calls := conn.calls ++ [call] }

/-- `MarkClosed`. -/
def markClosed (conn : Connection) (cause : CloseCause) : Connection :=
  { conn with
    closed := true
    readPaused := false
    closeAfterWrite := false
    readBuffer := []
    writeBuffer := conn.writeBuffer.clear
    trace.causes := conn.trace.causes ++ [cause] }

/-- `UpdateReadBackPressure`. -/
def updateReadBackPressure (o : NetworkOptions) (conn : Connection) : Connection :=
  if conn.closeAfterWrite || conn.closed then
    conn
  else
    let pendingBytes := conn.writeBuffer.size
    if conn.readPaused then
      if pendingBytes ≤ o.writeLowWatermarkBytes then
        { conn with readPaused := false }.count .onReadResumed
      else
        conn
    else if pendingBytes ≥ o.writeHighWatermarkBytes then
      { conn with readPaused := true }.count .onReadPaused
    else
      conn

/-- `QueueResponse`. -/
def queueResponse (o : NetworkOptions) (conn : Connection) (response : Bytes) :
    Bool × Connection :=
  match FrameCodec.encode response with
  -- also the overrun of the frame by a response of four gibibytes, which nothing reports
  | .error _ => (false, conn.markClosed .unencodable)
  | .ok frame =>
      let pendingBytes := conn.writeBuffer.size
      let hardLimit := o.writeHardLimitBytes
      if pendingBytes > hardLimit ∨ frame.length > hardLimit - pendingBytes then
        (false, (conn.count .onSlowClientDisconnected).markClosed .slowClient)
      else
        let conn := { conn with
          writeBuffer := conn.writeBuffer.append frame
          trace.queued := conn.trace.queued ++ [response] }
        let conn := conn.count (.observePendingWriteBytes conn.writeBuffer.size)
        (true, conn.updateReadBackPressure o)

/-- The response to a command, as `ProcessPayload` chooses it: the text of
`BuildStatsResponse`, or the result of `Execute`. -/
def respond (ambient : Ambient Q) (store : Store Q) (cmd : Command) : Bytes × Store Q :=
  if cmd.type = .stats then (ambient.statsResponse, store) else store.execute ambient.now cmd

/-- `ProcessPayload`; the Boolean is its return value. -/
def processPayload (o : NetworkOptions) (ambient : Ambient Q) (store : Store Q)
    (conn : Connection) (payload : Bytes) : Bool × Connection × Store Q :=
  let cmd := CommandParser.parseCommand payload
  let conn := conn.count .onCommandProcessed
  let conn := if cmd.type = .unknown then conn.count .onCommandError else conn
  let (response, store) := respond ambient (ambient.interfere store) cmd
  let conn := conn.count (.recordCommandLatency ambient.latency)
  let conn := { conn with trace.executed := conn.trace.executed ++ [(payload, response)] }
  match conn.queueResponse o response with
  | (false, conn) => (false, conn, store)
  | (true, conn) =>
      if cmd.type = .quit then
        (false, { conn with closeAfterWrite := true }, store)
      else
        (true, conn, store)

/-- The loop over the payloads in `HandleClientRead`. -/
def processPayloads (o : NetworkOptions) (ambient : Nat → Ambient Q) :
    Store Q → Connection → List Bytes → Connection × Store Q
  | store, conn, [] => (conn, store)
  | store, conn, payload :: rest =>
      match conn.processPayload o (ambient 0) store payload with
      | (false, conn, store) => (conn, store)
      | (true, conn, store) => processPayloads o (fun i => ambient (i + 1)) store conn rest

/-- `RejectOversizedReadBuffer`. -/
def rejectOversizedReadBuffer (o : NetworkOptions) (conn : Connection) : Connection :=
  match conn.queueResponse o (ascii "-ERR request buffer too large") with
  | (true, conn) => { conn with closeAfterWrite := true }
  | (false, conn) => conn.markClosed .oversized

/-- The number of bytes `HandleClientRead` asks `recv` for. -/
def readSize (o : NetworkOptions) (conn : Connection) : Nat :=
  min (16 * 1024) (o.maxReadBufferBytes - conn.readBuffer.length)

/-- The branch of `HandleClientRead` after `recv` has returned bytes. -/
def receiveBytes (o : NetworkOptions) (ambient : Nat → Ambient Q) (store : Store Q)
    (conn : Connection) (bytes : Bytes) : Connection × Store Q :=
  let conn := { conn with trace.received := conn.trace.received ++ [bytes] }
  let conn := conn.count (.addBytesReceived bytes.length)
  match FrameCodec.decodeInput conn.readBuffer (some bytes) bytes.length with
  | (readBuffer, .error _) =>
      let conn := { conn with readBuffer }.count .onProtocolError
      match conn.queueResponse o (ascii "-ERR protocol error") with
      | (true, conn) => ({ conn with closeAfterWrite := true }, store)
      | (false, conn) => (conn, store)
  | (readBuffer, .ok payloads) =>
      let conn := { conn with readBuffer }.count (.addFramesReceived payloads.length)
      conn.processPayloads o ambient store payloads

/-- The branch of `HandleClientRead` after `recv` has returned 0. -/
def receiveEnd (conn : Connection) : Connection :=
  let conn := conn.markClosed .endOfInput
  let conn := { conn with readPaused := true, closeAfterWrite := true }
  if conn.writeBuffer.isEmpty then conn.markClosed .endOfInput else conn

/-- `HandleClientRead`. -/
def handleClientRead (o : NetworkOptions) (input : IoInput Q) (store : Store Q)
    (conn : Connection) : Connection × Store Q :=
  if conn.closed || conn.readPaused || conn.closeAfterWrite then
    (conn, store)
  else if conn.readBuffer.length ≥ o.maxReadBufferBytes then
    (conn.rejectOversizedReadBuffer o, store)
  else
    match input.recv.result with
    | .bytes ready =>
        let received := ready.take (conn.readSize o)
        if received = [] then
          (conn.receiveEnd, store)
        else
          conn.receiveBytes o input.ambient store received
    | .wouldBlock => (conn, store)
    | .failed => (conn.markClosed .recvFailed, store)

/-- The branch of `HandleClientWrite` after `send` has taken some of the pending bytes. -/
def sendBytes (o : NetworkOptions) (conn : Connection) (bytes : Nat)
    (h : bytes ≤ conn.writeBuffer.size) : Connection :=
  let conn := { conn with
    trace.sent := conn.trace.sent ++ conn.writeBuffer.data.take bytes
    writeBuffer := conn.writeBuffer.advance bytes h
    calls := conn.calls ++ [MetricCall.addBytesSent bytes] }
  let conn := conn.updateReadBackPressure o
  if conn.writeBuffer.isEmpty && conn.closeAfterWrite then conn.markClosed .flushed else conn

/-- `HandleClientWrite`. -/
def handleClientWrite (o : NetworkOptions) (input : IoInput Q) (conn : Connection) :
    Connection :=
  if conn.closed then
    conn
  else if conn.writeBuffer.isEmpty then
    let conn := conn.updateReadBackPressure o
    if conn.closeAfterWrite then conn.markClosed .flushed else conn
  else
    let bytesToWrite := min conn.writeBuffer.size o.maxWriteBytesPerEvent
    match input.send.result with
    | .accepted bytes =>
        let written := min bytes bytesToWrite
        if written > 0 then
          conn.sendBytes o written
            (Nat.le_trans (Nat.min_le_right ..) (Nat.min_le_left ..))
        else
          conn.markClosed .sendFailed
    | .wouldBlock => conn
    | .failed => conn.markClosed .sendFailed

/-- The branch of the event loop for the Hangup flag. -/
def hangUp (conn : Connection) : Connection :=
  let conn := { conn with readPaused := true, closeAfterWrite := true, trace.hungUp := true }
  if conn.writeBuffer.isEmpty then conn.markClosed .hangup else conn

/-- `DesiredEvents`. -/
def desiredEvents (conn : Connection) : IoEvent :=
  if conn.closed then
    .none
  else
    { read := !conn.readPaused && !conn.closeAfterWrite
      write := !conn.writeBuffer.isEmpty }

/-- `RefreshConnectionInterest` up to the call of the poller, with the interests it asks
the poller for, if any. -/
def refreshInterest (o : NetworkOptions) (conn : Connection) : Connection × Option IoEvent :=
  if conn.closed then
    (conn, none)
  else
    let conn := conn.updateReadBackPressure o
    if conn.closeAfterWrite && conn.writeBuffer.isEmpty then
      (conn.markClosed .flushed, none)
    else
      let desired := conn.desiredEvents
      if desired = .none then
        (conn.markClosed .noInterest, none)
      else if desired = conn.registeredEvents then
        (conn, none)
      else
        (conn, some desired)

/-- The handling of one ready event in the event loop, up to the call of the poller by
`RefreshConnectionInterest`. -/
def handleEvent (o : NetworkOptions) (state : ServerState) (events : IoEvent)
    (input : IoInput Q) (store : Store Q) (conn : Connection) :
    (Connection × Option IoEvent) × Store Q :=
  if events.error then
    ((conn.markClosed .errorEvent, none), store)
  else
    let (conn, store) :=
      if state = .running ∧ events.read then
        conn.handleClientRead o input store
      else
        (conn, store)
    let conn := if !conn.closed && events.write then conn.handleClientWrite o input else conn
    let conn := if !conn.closed && events.hangup then conn.hangUp else conn
    (if !conn.closed then conn.refreshInterest o else (conn, none), store)

/-- What `BeginGracefulShutdown` does to one connection, up to the call of the poller by
`RefreshConnectionInterest`. -/
def beginDrain (o : NetworkOptions) (conn : Connection) : Connection × Option IoEvent :=
  let conn := { conn with readPaused := true, closeAfterWrite := true }
  if conn.writeBuffer.isEmpty then
    (conn.markClosed .drained, none)
  else
    conn.refreshInterest o

end Connection

end TinyKv
