import TinyKv.Net.Session

/-!
# The event loop

`SubReactor` with all its connections. The other threads reach it through `EnqueClient`,
`Stop` and `ForceStop`, which only write the members that `m_controlMutex` guards; the
event loop reads these once in an iteration, so that the calls may be taken to happen
between iterations.

An exception of the poller leaves an iteration with `false`.
-/

namespace TinyKv

open Foundation

variable {Q : ExpirationQueue}

/-- `SubReactor`, with the metric calls it makes itself, the connections that have left
`m_clients`, and the clock readings of `CheckShutdownProgress`. -/
structure SubReactor (Q : ExpirationQueue) where
  state : ServerState := .created
  publishedState : ServerState := .created
  failed : Bool := false
  poller : Poller
  controlFd : Int
  pendingClients : List Int := []
  clients : KeyedMap Int Connection := ∅
  stopRequested : Bool := false
  forceStopRequested : Bool := false
  requestedShutdownDeadline : TimePoint := 0
  shutdownDeadline : TimePoint := 0
  store : Store Q
  calls : List MetricCall := []
  departed : List Connection := []
  readings : List TimePoint := []

/-- What the outside contributes to one iteration of the event loop: the result of `Wait`
unless it throws, whether the wakeup channel is drained, the answers to the system calls
of each ready event and each connection, and the clock. -/
structure LoopInput (Q : ExpirationQueue) where
  ready : Option (List ReadyEvent)
  drainOk : Bool
  io : Nat → IoInput Q
  modityOk : Nat → Bool
  addOk : Nat → Bool
  drainModityOk : Int → Bool
  removeOk : Int → Bool
  now : TimePoint

namespace SubReactor

/-- `PublishState`. -/
def publishState (r : SubReactor Q) (state : ServerState) : SubReactor Q :=
  { r with state, publishedState := state }

/-! ### The calls of other threads -/

/-- `Start`; `addOk` and `threadOk` are the outcomes of `epoll_ctl` and of the creation
of the thread. -/
def start (r : SubReactor Q) (addOk threadOk : Bool) : SubReactor Q :=
  if r.publishedState ≠ .created then
    r
  else
    let empty : Poller := { r.poller with interests := ∅ }
    match empty.add r.controlFd { read := true } addOk with
    | .error _ => { r with poller := empty }
    | .ok poller =>
        let r := { r with poller }.publishState .running
        if threadOk then r else { r with poller := empty }.publishState .created

/-- `EnqueClient`. -/
def enqueClient (r : SubReactor Q) (fd : Int) : SubReactor Q :=
  if fd < 0 then
    r
  else if r.stopRequested || r.forceStopRequested then
    r
  else
    { r with pendingClients := r.pendingClients ++ [fd] }

/-- `Stop`. -/
def stop (r : SubReactor Q) (deadline : TimePoint) : SubReactor Q :=
  { r with
    requestedShutdownDeadline :=
      if !r.stopRequested || deadline < r.requestedShutdownDeadline then deadline
      else r.requestedShutdownDeadline
    stopRequested := true }

/-- `ForceStop`. -/
def forceStop (r : SubReactor Q) : SubReactor Q := { r with forceStopRequested := true }

/-! ### The event loop -/

/-- The end of `RefreshConnectionInterest` for the connection of a descriptor. -/
def registerInterest (r : SubReactor Q) (fd : Int) (refreshed : Connection × Option IoEvent)
    (modityOk : Bool) : Bool × SubReactor Q :=
  let (modified, poller) :=
    match refreshed.2 with
    | none => (true, r.poller)
    | some desired =>
        match r.poller.modity refreshed.1.fd desired modityOk with
        | .error _ => (false, r.poller)
        | .ok poller => (true, poller)
  let (ok, conn) := Connection.register refreshed modified
  (ok, { r with poller, clients := r.clients.insert fd conn })

/-- A closed connection is removed from the poller; a failure is only logged. -/
def removeClosed (removeOk : Int → Bool) (poller : Poller) (fd : Int) : Poller :=
  match poller.remove fd (removeOk fd) with
  | .error _ => poller
  | .ok poller => poller

/-- `CleanupClosedConnections`. -/
def cleanupClosedConnections (r : SubReactor Q) (removeOk : Int → Bool) : SubReactor Q :=
  let closed := r.clients.entries.filter fun e => e.2.closed
  { r with
    poller := (closed.map Sigma.fst).foldl (removeClosed removeOk) r.poller
    calls := r.calls ++ closed.map fun _ => MetricCall.onConnectionClosed
    clients := KeyedMap.filterValues (!·.closed) r.clients
    departed := r.departed ++ closed.map Sigma.snd }

/-- `ForceCloseAllConnections`. -/
def forceCloseAllConnections (r : SubReactor Q) (reason : ForcedClose) (removeOk : Int → Bool) :
    SubReactor Q :=
  let r := { r with
    calls := r.calls ++ [MetricCall.addForcedShutdownConnections (KeyedMap.size r.clients)]
    clients := KeyedMap.mapValues (·.markClosed reason.cause) r.clients }
  r.cleanupClosedConnections removeOk

/-- The loop over the connections in `BeginGracefulShutdown`. -/
def drainClients (o : NetworkOptions) (modityOk : Int → Bool) :
    List Int → SubReactor Q → Bool × SubReactor Q
  | [], r => (true, r)
  | fd :: rest, r =>
      match r.clients.lookup fd with
      | none => drainClients o modityOk rest r
      | some conn =>
          match r.registerInterest fd (conn.beginDrain o) (modityOk fd) with
          | (false, r) => (false, r)
          | (true, r) => drainClients o modityOk rest r

/-- `BeginGracefulShutdown`. -/
def beginGracefulShutdown (o : NetworkOptions) (input : LoopInput Q) (deadline : TimePoint)
    (r : SubReactor Q) : Bool × SubReactor Q :=
  if r.state ≠ .running then
    (true, r)
  else
    let r := { r with shutdownDeadline := deadline }.publishState .draining
    match drainClients o input.drainModityOk r.clients.keys r with
    | (false, r) => (false, r)
    | (true, r) =>
        let r := r.cleanupClosedConnections input.removeOk
        (true, if r.clients.entries = [] then r.publishState .stopped else r)

/-- `AddClientInLoop`; on an exception the new connection is destroyed and nothing else
happens. -/
def addClientInLoop (r : SubReactor Q) (fd : Int) (addOk : Bool) : SubReactor Q :=
  match r.clients.lookup fd with
  | some _ => r
  | none =>
      let conn : Connection := { fd }
      let interests := conn.desiredEvents
      match r.poller.add fd interests addOk with
      | .error _ => r
      | .ok poller =>
          { r with
            poller
            clients := r.clients.insert fd { conn with registeredEvents := interests }
            calls := r.calls ++ [MetricCall.onConnectionAccepted] }

/-- The loop over the new clients in `ProcessControlRequests`. -/
def addClients (addOk : Nat → Bool) : List Int → SubReactor Q → SubReactor Q
  | [], r => r
  | fd :: rest, r => addClients (fun i => addOk (i + 1)) rest (r.addClientInLoop fd (addOk 0))

/-- `ProcessControlRequests`. -/
def processControlRequests (o : NetworkOptions) (input : LoopInput Q) (r : SubReactor Q) :
    Bool × SubReactor Q :=
  let pendingClients := r.pendingClients
  let r := { r with pendingClients := [] }
  if r.forceStopRequested then
    (true, (r.forceCloseAllConnections .forceStop input.removeOk).publishState .stopped)
  else if r.stopRequested then
    r.beginGracefulShutdown o input r.requestedShutdownDeadline
  else
    (true, r.addClients input.addOk pendingClients)

/-- The loop over the ready events of clients in `EventLoop`. -/
def handleReady (o : NetworkOptions) (io : Nat → IoInput Q) (modityOk : Nat → Bool) :
    List ReadyEvent → SubReactor Q → Bool × SubReactor Q
  | [], r => (true, r)
  | ready :: rest, r =>
      if ready.fd = r.controlFd then
        handleReady o (fun i => io (i + 1)) (fun i => modityOk (i + 1)) rest r
      else
        match r.clients.lookup ready.fd with
        | none => handleReady o (fun i => io (i + 1)) (fun i => modityOk (i + 1)) rest r
        | some conn =>
            let (handled, store) := conn.handleEvent o r.state ready.events (io 0) r.store
            match { r with store }.registerInterest ready.fd handled (modityOk 0) with
            | (false, r) => (false, r)
            | (true, r) => handleReady o (fun i => io (i + 1)) (fun i => modityOk (i + 1)) rest r

/-- `CheckShutdownProgress`. -/
def checkShutdownProgress (r : SubReactor Q) (input : LoopInput Q) : SubReactor Q :=
  if r.state ≠ .draining then
    r
  else if r.clients.entries = [] then
    r.publishState .stopped
  else
    let r := { r with readings := r.readings ++ [input.now] }
    if input.now ≥ r.shutdownDeadline then
      (r.forceCloseAllConnections .deadline input.removeOk).publishState .stopped
    else
      r

/-- The wakeup channel is among the ready events. -/
def controlEventReceived (r : SubReactor Q) (ready : List ReadyEvent) : Bool :=
  ready.any fun e => e.fd == r.controlFd

/-- One iteration of `EventLoop` up to an exception. -/
def iteration (o : NetworkOptions) (input : LoopInput Q) (r : SubReactor Q) :
    Bool × SubReactor Q :=
  match input.ready with
  | none => (false, r)
  | some ready =>
      let (ok, r) :=
        if r.controlEventReceived ready then
          if input.drainOk then r.processControlRequests o input else (false, r)
        else
          (true, r)
      if !ok then
        (false, r)
      else if r.state = .stopped then
        (true, r)
      else
        match handleReady o input.io input.modityOk ready r with
        | (false, r) => (false, r)
        | (true, r) =>
            (true, (r.cleanupClosedConnections input.removeOk).checkShutdownProgress input)

/-- The `catch` clauses of `EventLoop`. -/
def fail (r : SubReactor Q) : SubReactor Q :=
  { r with
    failed := true
    departed := r.departed ++ r.clients.entries.map Sigma.snd
    clients := ∅ }.publishState .stopped

/-- One iteration of `EventLoop`, which runs from `Start` until the state is `Stopped`. -/
def iterate (o : NetworkOptions) (input : LoopInput Q) (r : SubReactor Q) : SubReactor Q :=
  if r.state = .created ∨ r.state = .stopped then
    r
  else
    match r.iteration o input with
    | (true, r) => r
    | (false, r) => r.fail

/-- The steps of a reactor: the calls of other threads and the iterations of its loop. -/
inductive Action (Q : ExpirationQueue) where
  | start (addOk threadOk : Bool)
  | enqueClient (fd : Int)
  | stop (deadline : TimePoint)
  | forceStop
  | iterate (input : LoopInput Q)

/-- One step. -/
def step (o : NetworkOptions) (r : SubReactor Q) : Action Q → SubReactor Q
  | .start addOk threadOk => r.start addOk threadOk
  | .enqueClient fd => r.enqueClient fd
  | .stop deadline => r.stop deadline
  | .forceStop => r.forceStop
  | .iterate input => r.iterate o input

/-- The reactors under given options. -/
def machine (o : NetworkOptions) : Machine (SubReactor Q) (Action Q) := ⟨step o⟩

/-- The reactor after a run of steps. -/
def run (o : NetworkOptions) (r : SubReactor Q) (actions : List (Action Q)) : SubReactor Q :=
  (machine o).run r actions

/-- A reactor as its constructor leaves it. -/
def created (backend : PollerBackend) (controlFd : Int) (store : Store Q) : SubReactor Q where
  poller := ⟨backend, ∅⟩
  controlFd
  store

/-- An iteration in which every system call but the I/O of the clients succeeds. -/
def calmly (ready : List ReadyEvent) (recv : RecvResult) (send : SendResult) (now : TimePoint) :
    LoopInput sortedExpirations where
  ready := some ready
  drainOk := true
  io _ := ⟨.returned recv, .returned send, Session.quiet⟩
  modityOk _ := true
  addOk _ := true
  drainModityOk _ := true
  removeOk _ := true
  now

/-- The iteration that reads a PING while nothing can be sent. -/
def readPing (ready : List ReadyEvent) : LoopInput sortedExpirations :=
  calmly ready (.bytes (FrameCodec.frameOf (ascii "PING"))) .wouldBlock 0

end SubReactor

end TinyKv
