import TinyKv.Net.ReactorInvariants

/-!
# The main reactor

`TcpServer::Run` with the sub reactors it starts. The thread in `Run` moves between
points of its code; wherever it reads what a sub reactor has published, or calls one, the
sub reactors may have taken steps before. A sub reactor takes whole iterations of its
event loop.

The main poller and the wakeup channel of the server show only in the results of `Wait`.
The sub reactors are kept where `CleanupMainReactor` destroys them.
-/

namespace TinyKv

open Foundation

variable {Q : ExpirationQueue}

/-- The members of `TcpServer` that do not change while it runs: its options and the
descriptors of its channels. -/
structure ServerSetup where
  networkOptions : NetworkOptions := {}
  reactorOptions : ReactorOptions := {}
  shutdownOptions : ShutdownOptions := {}
  backend : PollerBackend
  listenFd : Int
  stopFd : Int
  controlFd : Nat → Int

/-- The point of `Run` its thread has come to. A number counts the sub reactors, or the
accepted clients, that the loop at this point is through with; `ready` are the ready
events that are still to be handled. -/
inductive RunPoint where
  | created
  | startSubReactors (next : Nat)
  | wait
  | stopSubReactors (next : Nat) (ready : List ReadyEvent)
  | checkSubReactorHealth (next : Nat) (ready : List ReadyEvent)
  | handleReady (ready : List ReadyEvent)
  | acceptNewClients (acceptedCount : Nat) (ready : List ReadyEvent)
  | checkShutdownProgress (next : Nat) (allSubReactorStopped : Bool)
  | forceStopSubReactors (next : Nat)
  | handleException (next : Nat)
  | joinSubReactors
  | returned

/-- What the main reactor does to clients and sub reactors. -/
inductive MainCall where
  | accept (fd : Int)
  | enqueClient (reactor : Nat) (fd : Int)
  | stop (reactor : Nat)
  | forceRound (now deadline : TimePoint)
  | forceStop (reactor : Nat)
deriving DecidableEq

/-- `TcpServer`, with the calls it has made, and whether the `catch` clause of `Run` has
been entered. -/
structure TcpServer (Q : ExpirationQueue) where
  state : ServerState := .created
  point : RunPoint := .created
  caught : Bool := false
  stopRequested : Bool := false
  listening : Bool := false
  shutdownDeadline : TimePoint := 0
  forceStopSent : Bool := false
  nextSubReactorIndex : Nat := 0
  subReactors : List (SubReactor Q)
  calls : List MainCall := []

/-- An answer of `accept`; a client may fail to be initialised. -/
inductive AcceptResult where
  | client (fd : Int) (initialised : Bool)
  | interrupted
  | wouldBlock
  | failed

/-- What the outside contributes to one step of the thread in `Run`. -/
structure RunInput where
  socketsOk : Bool
  addOk : Bool
  threadOk : Bool
  sweeperOk : Bool
  ready : Option (List ReadyEvent)
  drainOk : Bool
  removeOk : Bool
  accept : AcceptResult
  now : TimePoint

namespace TcpServer

/-- An exception is caught by `Run`. -/
def catchException (s : TcpServer Q) : TcpServer Q :=
  { s with caught := true, point := .handleException 0 }

/-- A call on one of the sub reactors. -/
def withSubReactor (s : TcpServer Q) (i : Nat) (r : SubReactor Q) : TcpServer Q :=
  { s with subReactors := s.subReactors.set i r }

/-- `Run` up to the sub reactors, of which there are none yet when it fails. -/
def openSockets (input : RunInput) (s : TcpServer Q) : TcpServer Q :=
  if input.socketsOk then
    { s with listening := true, point := .startSubReactors 0 }
  else
    { s with caught := true, point := .joinSubReactors }

/-- The next `Start` of a sub reactor, and after the last one `StartSweeperThread`. -/
def startSubReactors (input : RunInput) (next : Nat) (s : TcpServer Q) : TcpServer Q :=
  match s.subReactors[next]? with
  | some r =>
      let started := r.start input.addOk input.threadOk
      let s := s.withSubReactor next started
      if started.publishedState = .running then
        { s with point := .startSubReactors (next + 1) }
      else
        s.catchException
  | none =>
      let s := { s with state := .running }
      if input.sweeperOk then { s with point := .wait } else s.catchException

/-- `BeginGracefulShutdown` up to its loop; the check of the sub reactors that follows it
returns at once. The deadline is a number without a bound here; the steady clock wraps around
instead (see `Config.Durations`), which no timeout up to 4611686018427 milliseconds reaches. -/
def beginGracefulShutdown (c : ServerSetup) (input : RunInput) (ready : List ReadyEvent)
    (s : TcpServer Q) : TcpServer Q :=
  if s.state ≠ .running then
    { s with point := .checkSubReactorHealth 0 ready }
  else
    let s := { s with
      state := .draining
      shutdownDeadline := input.now + c.shutdownOptions.gracefulTimeout * 1000000 }
    if s.listening && !input.removeOk then
      s.catchException
    else
      { s with listening := false, point := .stopSubReactors 0 ready }

/-- The beginning of an iteration: `Wait`, and the test for a stop request. -/
def wait (c : ServerSetup) (input : RunInput) (s : TcpServer Q) : TcpServer Q :=
  match input.ready with
  | none => s.catchException
  | some ready =>
      let stopEventReceived := ready.any fun e => e.fd == c.stopFd
      if stopEventReceived && !input.drainOk then
        s.catchException
      else if s.stopRequested || stopEventReceived then
        s.beginGracefulShutdown c input ready
      else
        { s with point := .checkSubReactorHealth 0 ready }

/-- The loop of `BeginGracefulShutdown`. -/
def stopSubReactors (next : Nat) (ready : List ReadyEvent) (s : TcpServer Q) : TcpServer Q :=
  match s.subReactors[next]? with
  | some r =>
      { s.withSubReactor next (r.stop s.shutdownDeadline) with
        calls := s.calls ++ [.stop next]
        point := .stopSubReactors (next + 1) ready }
  | none => { s with point := .checkSubReactorHealth 0 ready }

/-- `CheckSubReactorHealth`. -/
def checkSubReactorHealth (c : ServerSetup) (input : RunInput) (next : Nat)
    (ready : List ReadyEvent) (s : TcpServer Q) : TcpServer Q :=
  if s.state ≠ .running then
    { s with point := .handleReady ready }
  else
    match s.subReactors[next]? with
    | some r =>
        if r.failed then
          s.beginGracefulShutdown c input ready
        else
          { s with point := .checkSubReactorHealth (next + 1) ready }
    | none => { s with point := .handleReady ready }

/-- The loop over the ready events. -/
def handleReady (c : ServerSetup) (ready : List ReadyEvent) (s : TcpServer Q) : TcpServer Q :=
  match ready with
  | [] => { s with point := .checkShutdownProgress 0 true }
  | e :: rest =>
      if e.fd ≠ c.stopFd ∧ s.listening ∧ e.fd = c.listenFd ∧ s.state = .running ∧
          e.events.read then
        { s with point := .acceptNewClients 0 rest }
      else
        { s with point := .handleReady rest }

/-- The loop of `AcceptNewClients`; the clients are handed out in turn. -/
def acceptNewClients (c : ServerSetup) (input : RunInput) (acceptedCount : Nat)
    (ready : List ReadyEvent) (s : TcpServer Q) : TcpServer Q :=
  if acceptedCount ≥ c.networkOptions.maxAcceptsPerEvent then
    { s with point := .handleReady ready }
  else
    match input.accept with
    | .interrupted => s
    | .wouldBlock => { s with point := .handleReady ready }
    | .failed => s.catchException
    | .client fd initialised =>
        let s := { s with
          calls := s.calls ++ [.accept fd]
          point := .acceptNewClients (acceptedCount + 1) ready }
        if !initialised then
          s
        else
          let reactorIndex := s.nextSubReactorIndex
          let s := { s with
            nextSubReactorIndex := (s.nextSubReactorIndex + 1) % s.subReactors.length }
          match s.subReactors[reactorIndex]? with
          | some r =>
              { s.withSubReactor reactorIndex (r.enqueClient fd) with
                calls := s.calls ++ [.enqueClient reactorIndex fd] }
          | none => s

/-- `CheckShutdownProgress` up to its second loop. -/
def checkShutdownProgress (input : RunInput) (next : Nat) (allSubReactorStopped : Bool)
    (s : TcpServer Q) : TcpServer Q :=
  if s.state ≠ .draining then
    { s with point := .wait }
  else
    match s.subReactors[next]? with
    | some r =>
        let allSubReactorStopped := allSubReactorStopped && r.publishedState == .stopped
        { s with point := .checkShutdownProgress (next + 1) allSubReactorStopped }
    | none =>
        if allSubReactorStopped then
          { s with state := .stopped, point := .joinSubReactors }
        else if !s.forceStopSent && input.now ≥ s.shutdownDeadline then
          { s with
            calls := s.calls ++ [.forceRound input.now s.shutdownDeadline]
            point := .forceStopSubReactors 0 }
        else
          { s with point := .wait }

/-- The second loop of `CheckShutdownProgress`. -/
def forceStopSubReactors (next : Nat) (s : TcpServer Q) : TcpServer Q :=
  match s.subReactors[next]? with
  | some r =>
      if r.publishedState = .stopped then
        { s with point := .forceStopSubReactors (next + 1) }
      else
        { s.withSubReactor next r.forceStop with
          calls := s.calls ++ [.forceStop next]
          point := .forceStopSubReactors (next + 1) }
  | none => { s with forceStopSent := true, point := .wait }

/-- The loop of `ForceStopAndJoinSubReactors`. -/
def handleException (next : Nat) (s : TcpServer Q) : TcpServer Q :=
  match s.subReactors[next]? with
  | some r =>
      { s.withSubReactor next r.forceStop with
        calls := s.calls ++ [.forceStop next]
        point := .handleException (next + 1) }
  | none => { s with point := .joinSubReactors }

/-- The thread of a sub reactor has not been created, or has returned. -/
def threadEnded (r : SubReactor Q) : Bool :=
  r.state == .created || r.state == .stopped

/-- `JoinSubReactors`, which waits for all sub reactors, and `CleanupMainReactor`. -/
def joinSubReactors (s : TcpServer Q) : TcpServer Q :=
  if s.subReactors.all threadEnded then
    { s with listening := false, state := .stopped, point := .returned }
  else
    s

/-- One step of the thread in `Run`. The call of `StopSweeperThread`, which comes before the
loop of the `catch` clause and before the joins and waits for the sweeper, is left to
`SweptServer`. -/
def runStep (c : ServerSetup) (input : RunInput) (s : TcpServer Q) : TcpServer Q :=
  match s.point with
  | .created => s.openSockets input
  | .startSubReactors next => s.startSubReactors input next
  | .wait => s.wait c input
  | .stopSubReactors next ready => s.stopSubReactors next ready
  | .checkSubReactorHealth next ready => s.checkSubReactorHealth c input next ready
  | .handleReady ready => s.handleReady c ready
  | .acceptNewClients acceptedCount ready => s.acceptNewClients c input acceptedCount ready
  | .checkShutdownProgress next allSubReactorStopped =>
      s.checkShutdownProgress input next allSubReactorStopped
  | .forceStopSubReactors next => s.forceStopSubReactors next
  | .handleException next => s.handleException next
  | .joinSubReactors => s.joinSubReactors
  | .returned => s

/-- The steps of a server: those of the thread in `Run`, the calls of `Stop`, and the
iterations of its sub reactors. A signal shows in the result of `Wait`. -/
inductive Action (Q : ExpirationQueue) where
  | run (input : RunInput)
  | stop
  | subReactor (i : Nat) (input : LoopInput Q)

/-- One step. -/
def step (c : ServerSetup) (s : TcpServer Q) : Action Q → TcpServer Q
  | .run input => s.runStep c input
  | .stop => { s with stopRequested := true }
  | .subReactor i input =>
      match s.subReactors[i]? with
      | some r => s.withSubReactor i (r.iterate c.networkOptions input)
      | none => s

/-- The servers of a given setup. -/
def machine (c : ServerSetup) : Machine (TcpServer Q) (Action Q) := ⟨step c⟩

/-- The server after a run of steps. -/
def run (c : ServerSetup) (s : TcpServer Q) (actions : List (Action Q)) : TcpServer Q :=
  (machine c).run s actions

/-- A server as its constructor leaves it, with the sub reactors that `Run` constructs. -/
def created (c : ServerSetup) (store : Store Q) : TcpServer Q where
  subReactors := (List.range c.reactorOptions.subReactorCount).map fun i =>
    SubReactor.created c.backend (c.controlFd i) store

/-! ### What a step of `Run` does -/

/-- The steps of the thread in `Run` that only lead to another point, or to the same again. -/
inductive GoesTo (c : ServerSetup) (input : RunInput) (s : TcpServer Q) : RunPoint → Prop where
  | look {ready : List ReadyEvent} (h : s.point = .wait)
      (hstate : s.state = .running → s.stopRequested = false) :
      GoesTo c input s (.checkSubReactorHealth 0 ready)
  | stopped {next : Nat} {ready : List ReadyEvent} (h : s.point = .stopSubReactors next ready)
      (hlast : s.subReactors.length ≤ next) : GoesTo c input s (.checkSubReactorHealth 0 ready)
  | checkNext {next : Nat} {ready : List ReadyEvent}
      (h : s.point = .checkSubReactorHealth next ready) (hlt : next < s.subReactors.length) :
      GoesTo c input s (.checkSubReactorHealth (next + 1) ready)
  | checked {next : Nat} {ready : List ReadyEvent}
      (h : s.point = .checkSubReactorHealth next ready) : GoesTo c input s (.handleReady ready)
  | handled (h : s.point = .handleReady []) : GoesTo c input s (.checkShutdownProgress 0 true)
  | accept {e : ReadyEvent} {rest : List ReadyEvent} (h : s.point = .handleReady (e :: rest))
      (hstate : s.state = .running) : GoesTo c input s (.acceptNewClients 0 rest)
  | skip {e : ReadyEvent} {rest : List ReadyEvent} (h : s.point = .handleReady (e :: rest)) :
      GoesTo c input s (.handleReady rest)
  | acceptAgain {n : Nat} {ready : List ReadyEvent} (h : s.point = .acceptNewClients n ready)
      (hinterrupted : input.accept = .interrupted) :
      GoesTo c input s (.acceptNewClients n ready)
  | accepted {n : Nat} {ready : List ReadyEvent} (h : s.point = .acceptNewClients n ready) :
      GoesTo c input s (.handleReady ready)
  | serving {next : Nat} {all : Bool} (h : s.point = .checkShutdownProgress next all)
      (hstate : s.state ≠ .draining) : GoesTo c input s .wait
  | probe {next : Nat} {all : Bool} {r : SubReactor Q}
      (h : s.point = .checkShutdownProgress next all) (hstate : s.state = .draining)
      (hget : s.subReactors[next]? = some r) :
      GoesTo c input s (.checkShutdownProgress (next + 1) (all && r.publishedState == .stopped))
  | patient {next : Nat} (h : s.point = .checkShutdownProgress next false)
      (hstate : s.state = .draining) : GoesTo c input s .wait
  | forceNext {next : Nat} (h : s.point = .forceStopSubReactors next)
      (hlt : next < s.subReactors.length) : GoesTo c input s (.forceStopSubReactors (next + 1))
  | rescued {next : Nat} (h : s.point = .handleException next)
      (hlast : s.subReactors.length ≤ next) : GoesTo c input s .joinSubReactors
  | joining (h : s.point = .joinSubReactors) (hended : s.subReactors.all threadEnded = false) :
      GoesTo c input s .joinSubReactors
  | returned (h : s.point = .returned) : GoesTo c input s .returned

/-- What one step of the thread in `Run` does. -/
inductive RunOutcome (c : ServerSetup) (input : RunInput) (s : TcpServer Q) :
    TcpServer Q → Prop where
  | goes {point : RunPoint} (h : GoesTo c input s point) : RunOutcome c input s { s with point }
  | throws (h : s.point = .wait ∨ ∃ n ready, s.point = .acceptNewClients n ready) :
      RunOutcome c input s s.catchException
  | opened (h : s.point = .created) (hsockets : input.socketsOk = true) :
      RunOutcome c input s { s with listening := true, point := .startSubReactors 0 }
  | refused (h : s.point = .created) (hsockets : input.socketsOk = false) :
      RunOutcome c input s { s with caught := true, point := .joinSubReactors }
  | started {next : Nat} {r : SubReactor Q} (h : s.point = .startSubReactors next)
      (hget : s.subReactors[next]? = some r)
      (hrunning : (r.start input.addOk input.threadOk).publishedState = .running) :
      RunOutcome c input s
        { s.withSubReactor next (r.start input.addOk input.threadOk) with
          point := .startSubReactors (next + 1) }
  | startFailed {next : Nat} {r : SubReactor Q} (h : s.point = .startSubReactors next)
      (hget : s.subReactors[next]? = some r)
      (hfailed : (r.start input.addOk input.threadOk).publishedState ≠ .running) :
      RunOutcome c input s
        (s.withSubReactor next (r.start input.addOk input.threadOk)).catchException
  | served {next : Nat} (h : s.point = .startSubReactors next)
      (hlast : s.subReactors.length ≤ next) (hsweeper : input.sweeperOk = true) :
      RunOutcome c input s { s with state := .running, point := .wait }
  | sweeperFailed {next : Nat} (h : s.point = .startSubReactors next)
      (hlast : s.subReactors.length ≤ next) (hsweeper : input.sweeperOk = false) :
      RunOutcome c input s { s with state := .running }.catchException
  | drained {ready : List ReadyEvent}
      (h : s.point = .wait ∨ ∃ next, s.point = .checkSubReactorHealth next ready)
      (hstate : s.state = .running) :
      RunOutcome c input s
        { s with
          state := .draining
          shutdownDeadline := input.now + c.shutdownOptions.gracefulTimeout * 1000000
          listening := false
          point := .stopSubReactors 0 ready }
  | removeFailed {ready : List ReadyEvent}
      (h : s.point = .wait ∨ ∃ next, s.point = .checkSubReactorHealth next ready)
      (hstate : s.state = .running) :
      RunOutcome c input s
        { s with
          state := .draining
          shutdownDeadline :=
            input.now + c.shutdownOptions.gracefulTimeout * 1000000 }.catchException
  | stopped {next : Nat} {ready : List ReadyEvent} {r : SubReactor Q}
      (h : s.point = .stopSubReactors next ready) (hget : s.subReactors[next]? = some r) :
      RunOutcome c input s
        { s.withSubReactor next (r.stop s.shutdownDeadline) with
          calls := s.calls ++ [.stop next]
          point := .stopSubReactors (next + 1) ready }
  | unready {n : Nat} {ready : List ReadyEvent} (fd : Int)
      (h : s.point = .acceptNewClients n ready)
      (haccept : n < c.networkOptions.maxAcceptsPerEvent)
      (hclient : input.accept = .client fd false) :
      RunOutcome c input s
        { s with
          calls := s.calls ++ [.accept fd]
          point := .acceptNewClients (n + 1) ready }
  | undealt {n : Nat} {ready : List ReadyEvent} (fd : Int)
      (h : s.point = .acceptNewClients n ready)
      (haccept : n < c.networkOptions.maxAcceptsPerEvent)
      (hclient : input.accept = .client fd true)
      (hlast : s.subReactors.length ≤ s.nextSubReactorIndex) :
      RunOutcome c input s
        { s with
          calls := s.calls ++ [.accept fd]
          point := .acceptNewClients (n + 1) ready
          nextSubReactorIndex := (s.nextSubReactorIndex + 1) % s.subReactors.length }
  | dealt {n : Nat} {ready : List ReadyEvent} {r : SubReactor Q} (fd : Int)
      (h : s.point = .acceptNewClients n ready)
      (haccept : n < c.networkOptions.maxAcceptsPerEvent)
      (hclient : input.accept = .client fd true)
      (hget : s.subReactors[s.nextSubReactorIndex]? = some r) :
      RunOutcome c input s
        { s.withSubReactor s.nextSubReactorIndex (r.enqueClient fd) with
          calls := s.calls ++ [.accept fd] ++ [.enqueClient s.nextSubReactorIndex fd]
          point := .acceptNewClients (n + 1) ready
          nextSubReactorIndex := (s.nextSubReactorIndex + 1) % s.subReactors.length }
  | finished {next : Nat} (h : s.point = .checkShutdownProgress next true)
      (hstate : s.state = .draining) (hlast : s.subReactors.length ≤ next) :
      RunOutcome c input s { s with state := .stopped, point := .joinSubReactors }
  | round {next : Nat} (h : s.point = .checkShutdownProgress next false)
      (hstate : s.state = .draining) (hsent : s.forceStopSent = false)
      (hlate : s.shutdownDeadline ≤ input.now) :
      RunOutcome c input s
        { s with
          calls := s.calls ++ [.forceRound input.now s.shutdownDeadline]
          point := .forceStopSubReactors 0 }
  | forced {next : Nat} {r : SubReactor Q} (h : s.point = .forceStopSubReactors next)
      (hget : s.subReactors[next]? = some r) (hrunning : r.publishedState ≠ .stopped) :
      RunOutcome c input s
        { s.withSubReactor next r.forceStop with
          calls := s.calls ++ [.forceStop next]
          point := .forceStopSubReactors (next + 1) }
  | forcedAll {next : Nat} (h : s.point = .forceStopSubReactors next) :
      RunOutcome c input s { s with forceStopSent := true, point := .wait }
  | rescued {next : Nat} {r : SubReactor Q} (h : s.point = .handleException next)
      (hget : s.subReactors[next]? = some r) :
      RunOutcome c input s
        { s.withSubReactor next r.forceStop with
          calls := s.calls ++ [.forceStop next]
          point := .handleException (next + 1) }
  | joined (h : s.point = .joinSubReactors) (hended : s.subReactors.all threadEnded = true) :
      RunOutcome c input s { s with listening := false, state := .stopped, point := .returned }

theorem RunOutcome.of_same {c : ServerSetup} {input : RunInput} {s : TcpServer Q}
    {point : RunPoint} (hpoint : s.point = point) (h : GoesTo c input s point) :
    RunOutcome c input s s := by
  subst hpoint
  exact .goes h

theorem startSubReactors_outcome (c : ServerSetup) (input : RunInput) {next : Nat}
    {s : TcpServer Q} (hpoint : s.point = .startSubReactors next) :
    RunOutcome c input s (s.startSubReactors input next) := by
  unfold startSubReactors
  cases hget : s.subReactors[next]? with
  | some r =>
      simp only
      split
      · next hrunning => exact .started hpoint hget hrunning
      · next hfailed => exact .startFailed hpoint hget hfailed
  | none =>
      have hlast := List.getElem?_eq_none_iff.mp hget
      simp only
      split
      · next hsweeper => exact .served hpoint hlast hsweeper
      · next hsweeper => exact .sweeperFailed hpoint hlast (Bool.eq_false_of_not_eq_true hsweeper)

theorem beginGracefulShutdown_outcome (c : ServerSetup) (input : RunInput)
    {ready : List ReadyEvent} {s : TcpServer Q}
    (hpoint : s.point = .wait ∨ ∃ next, s.point = .checkSubReactorHealth next ready)
    (hstate : s.state = .running) :
    RunOutcome c input s (s.beginGracefulShutdown c input ready) := by
  rw [beginGracefulShutdown, if_neg (not_not.mpr hstate)]
  simp only
  split
  · exact .removeFailed hpoint hstate
  · exact .drained hpoint hstate

theorem wait_outcome (c : ServerSetup) (input : RunInput) {s : TcpServer Q}
    (hpoint : s.point = .wait) : RunOutcome c input s (s.wait c input) := by
  unfold wait
  cases input.ready with
  | none => exact .throws (.inl hpoint)
  | some ready =>
      simp only
      split
      · exact .throws (.inl hpoint)
      split
      · by_cases hstate : s.state = .running
        · exact beginGracefulShutdown_outcome c input (.inl hpoint) hstate
        · rw [beginGracefulShutdown, if_pos hstate]
          exact .goes (.look hpoint fun h => absurd h hstate)
      · next hnone =>
        refine .goes (.look hpoint fun _ => ?_)
        simp only [Bool.or_eq_true, not_or, Bool.not_eq_true] at hnone
        exact hnone.1

theorem acceptNewClients_outcome (c : ServerSetup) (input : RunInput) {n : Nat}
    {ready : List ReadyEvent} {s : TcpServer Q} (hpoint : s.point = .acceptNewClients n ready) :
    RunOutcome c input s (s.acceptNewClients c input n ready) := by
  unfold acceptNewClients
  split
  · exact .goes (.accepted hpoint)
  next hbudget =>
    have hlt := Nat.lt_of_not_le hbudget
    cases haccept : input.accept with
    | interrupted => exact .of_same hpoint (.acceptAgain hpoint haccept)
    | wouldBlock => exact .goes (.accepted hpoint)
    | failed => exact .throws (.inr ⟨n, ready, hpoint⟩)
    | client fd initialised =>
        cases initialised with
        | false => exact .unready fd hpoint hlt haccept
        | true =>
            simp only [Bool.not_true, Bool.false_eq_true, if_false]
            cases hget : s.subReactors[s.nextSubReactorIndex]? with
            | some r => exact .dealt fd hpoint hlt haccept hget
            | none => exact .undealt fd hpoint hlt haccept (List.getElem?_eq_none_iff.mp hget)

theorem checkShutdownProgress_outcome (c : ServerSetup) (input : RunInput) {next : Nat}
    {all : Bool} {s : TcpServer Q} (hpoint : s.point = .checkShutdownProgress next all) :
    RunOutcome c input s (s.checkShutdownProgress input next all) := by
  unfold checkShutdownProgress
  split
  · next hstate => exact .goes (.serving hpoint hstate)
  next hstate =>
    have hdraining := not_not.mp hstate
    cases hget : s.subReactors[next]? with
    | some r => exact .goes (.probe hpoint hdraining hget)
    | none =>
        cases all with
        | true => exact .finished hpoint hdraining (List.getElem?_eq_none_iff.mp hget)
        | false =>
            simp only [Bool.false_eq_true, if_false]
            split
            · next hlate =>
              simp only [Bool.and_eq_true, Bool.not_eq_true', decide_eq_true_eq] at hlate
              exact .round hpoint hdraining hlate.1 hlate.2
            · exact .goes (.patient hpoint hdraining)

/-- What the thread in `Run` can do, by the point it is at. -/
theorem runStep_outcome (c : ServerSetup) (input : RunInput) (s : TcpServer Q) :
    RunOutcome c input s (s.runStep c input) := by
  unfold runStep
  cases hpoint : s.point with
  | created =>
      simp only [openSockets]
      split
      · next hsockets => exact .opened hpoint hsockets
      · next hsockets => exact .refused hpoint (Bool.eq_false_of_not_eq_true hsockets)
  | startSubReactors next => exact startSubReactors_outcome c input hpoint
  | wait => exact wait_outcome c input hpoint
  | stopSubReactors next ready =>
      simp only [stopSubReactors]
      cases hget : s.subReactors[next]? with
      | some r => exact .stopped hpoint hget
      | none => exact .goes (.stopped hpoint (List.getElem?_eq_none_iff.mp hget))
  | checkSubReactorHealth next ready =>
      simp only [checkSubReactorHealth]
      split
      · exact .goes (.checked hpoint)
      next hstate =>
        cases hget : s.subReactors[next]? with
        | some r =>
            simp only
            split
            · exact beginGracefulShutdown_outcome c input (.inr ⟨next, hpoint⟩)
                (not_not.mp hstate)
            · exact .goes (.checkNext hpoint (List.getElem?_eq_some_iff.mp hget).1)
        | none => exact .goes (.checked hpoint)
  | handleReady ready =>
      cases ready with
      | nil => exact .goes (.handled hpoint)
      | cons e rest =>
          simp only [handleReady]
          split
          · next haccept => exact .goes (.accept hpoint haccept.2.2.2.1)
          · exact .goes (.skip hpoint)
  | acceptNewClients n ready => exact acceptNewClients_outcome c input hpoint
  | checkShutdownProgress next all => exact checkShutdownProgress_outcome c input hpoint
  | forceStopSubReactors next =>
      simp only [forceStopSubReactors]
      cases hget : s.subReactors[next]? with
      | some r =>
          simp only
          split
          · exact .goes (.forceNext hpoint (List.getElem?_eq_some_iff.mp hget).1)
          · next hrunning => exact .forced hpoint hget hrunning
      | none => exact .forcedAll hpoint
  | handleException next =>
      simp only [handleException]
      cases hget : s.subReactors[next]? with
      | some r => exact .rescued hpoint hget
      | none => exact .goes (.rescued hpoint (List.getElem?_eq_none_iff.mp hget))
  | joinSubReactors =>
      simp only [joinSubReactors]
      split
      · next hended => exact .joined hpoint hended
      · next hended =>
        exact .of_same hpoint (.joining hpoint (Bool.eq_false_of_not_eq_true hended))
  | returned => exact .of_same hpoint (.returned hpoint)

/-! ### The sub reactors of a server -/

/-- `after` is `before` with at most one call on one of the sub reactors. -/
inductive Called (o : NetworkOptions) (before : List (SubReactor Q)) :
    List (SubReactor Q) → Prop where
  | none : Called o before before
  | call {i : Nat} {r : SubReactor Q} (action : SubReactor.Action Q)
      (hget : before[i]? = some r) (hcall : ∀ input, action ≠ .iterate input) :
      Called o before (before.set i (r.step o action))

/-- What the thread in `Run` does to the sub reactors in one step. -/
theorem called_runStep (c : ServerSetup) (input : RunInput) (s : TcpServer Q) :
    Called c.networkOptions s.subReactors (s.runStep c input).subReactors := by
  have houtcome := runStep_outcome c input s
  generalize s.runStep c input = after at houtcome ⊢
  cases houtcome with
  | started h hget _ | startFailed h hget _ =>
      exact .call (.start input.addOk input.threadOk) hget fun _ => by simp
  | stopped h hget => exact .call (.stop s.shutdownDeadline) hget fun _ => by simp
  | dealt fd h haccept hclient hget => exact .call (.enqueClient fd) hget fun _ => by simp
  | forced h hget _ | rescued h hget => exact .call .forceStop hget fun _ => by simp
  | goes | throws | opened | refused | served | sweeperFailed | drained | removeFailed | unready
  | undealt | finished | round | forcedAll | joined => exact .none

/-- A step of the server is at most one step of each of its sub reactors. -/
theorem subReactor_step (c : ServerSetup) {s : TcpServer Q} {i : Nat} {r : SubReactor Q}
    (h : s.subReactors[i]? = some r) (action : Action Q) :
    (s.step c action).subReactors[i]? = some r ∨
      ∃ step, (s.step c action).subReactors[i]? = some (r.step c.networkOptions step) := by
  have hset {j : Nat} {r' : SubReactor Q} (hget : s.subReactors[j]? = some r')
      (taken : SubReactor.Action Q) :
      (s.subReactors.set j (r'.step c.networkOptions taken))[i]? = some r ∨
        ∃ step, (s.subReactors.set j (r'.step c.networkOptions taken))[i]? =
          some (r.step c.networkOptions step) := by
    rw [List.getElem?_set]
    split
    · next heq =>
      subst heq
      rw [h] at hget
      cases hget
      obtain ⟨hlt, -⟩ := List.getElem?_eq_some_iff.mp h
      exact .inr ⟨taken, if_pos hlt⟩
    · exact .inl h
  cases action with
  | run input =>
      have hcalled := called_runStep c input s
      simp only [TcpServer.step]
      generalize (s.runStep c input).subReactors = after at hcalled ⊢
      cases hcalled with
      | none => exact .inl h
      | call step hget _ => exact hset hget step
  | stop => exact .inl h
  | subReactor j input =>
      simp only [TcpServer.step]
      cases hget : s.subReactors[j]? with
      | some r' =>
          simp only
          exact hset hget (.iterate input)
      | none => exact .inl h

/-- Within a run of the server, each of its sub reactors has a run of its own. -/
theorem subReactor_run (c : ServerSetup) {s : TcpServer Q} {i : Nat} {r : SubReactor Q}
    (h : s.subReactors[i]? = some r) (actions : List (Action Q)) :
    ∃ steps, (s.run c actions).subReactors[i]? = some (r.run c.networkOptions steps) := by
  apply (machine c).run_simulated (SubReactor.machine c.networkOptions)
    (R := fun s r => s.subReactors[i]? = some r) _ h
  intro s r h action
  obtain hsame | ⟨step, hstep⟩ := subReactor_step c h action
  · exact ⟨[], hsame⟩
  · exact ⟨[step], hstep⟩

theorem length_subReactors_step (c : ServerSetup) (s : TcpServer Q) (action : Action Q) :
    (s.step c action).subReactors.length = s.subReactors.length := by
  cases action with
  | run input =>
      have hcalled := called_runStep c input s
      simp only [step]
      generalize (s.runStep c input).subReactors = after at hcalled ⊢
      cases hcalled with
      | none => rfl
      | call step hget _ => exact List.length_set
  | stop => rfl
  | subReactor j input =>
      simp only [step]
      cases s.subReactors[j]? with
      | some r => exact List.length_set
      | none => rfl

/-- What the steps of a reactor keep, the sub reactors of a server keep. -/
theorem subReactors_step {I : SubReactor Q → Prop} (c : ServerSetup)
    (hstep : ∀ r, I r → ∀ step, I (r.step c.networkOptions step)) {s : TcpServer Q}
    (h : ∀ r ∈ s.subReactors, I r) (action : Action Q) :
    ∀ r ∈ (s.step c action).subReactors, I r := by
  intro after hmem
  obtain ⟨i, hafter⟩ := List.getElem?_of_mem hmem
  obtain ⟨hlt, -⟩ := List.getElem?_eq_some_iff.mp hafter
  rw [length_subReactors_step] at hlt
  have hget := List.getElem?_eq_getElem hlt
  have hbefore := h _ (List.mem_of_getElem? hget)
  obtain hsame | ⟨step, hnext⟩ := subReactor_step c hget action
  · rw [hsame] at hafter
    cases hafter
    exact hbefore
  · rw [hnext] at hafter
    cases hafter
    exact hstep _ hbefore step

/-- What the steps of a reactor keep holds of all sub reactors in every run. -/
theorem subReactors_run {I : SubReactor Q → Prop} (c : ServerSetup)
    (hstep : ∀ r, I r → ∀ step, I (r.step c.networkOptions step)) {store : Store Q}
    (hcreated : ∀ controlFd, I (SubReactor.created c.backend controlFd store))
    (actions : List (Action Q)) :
    ∀ r ∈ ((created c store).run c actions).subReactors, I r := by
  apply (machine c).run_invariant (I := fun s => ∀ r ∈ s.subReactors, I r)
  · intro s h action _
    exact subReactors_step c hstep h action
  · intro r hmem
    obtain ⟨i, -, rfl⟩ := List.mem_map.mp hmem
    exact hcreated (c.controlFd i)

/-! ### A server with one sub reactor -/

/-- The setup of a server with one sub reactor. -/
def oneSubReactor : ServerSetup where
  reactorOptions := { subReactorCount := 1 }
  backend := .epoll
  listenFd := 4
  stopFd := 5
  controlFd _ := 3

/-- The input of a step of the main reactor in which no system call fails. -/
def idly (ready : List ReadyEvent) (accept : AcceptResult) (now : TimePoint) : RunInput where
  socketsOk := true
  addOk := true
  threadOk := true
  sweeperOk := true
  ready := some ready
  drainOk := true
  removeOk := true
  accept
  now

/-- A step of the main reactor in which no system call fails. -/
def smoothly (ready : List ReadyEvent) (accept : AcceptResult) (now : TimePoint) :
    Action sortedExpirations :=
  .run (idly ready accept now)

/-- The server is started, and accepts the client with descriptor 7. -/
def acceptClient : List (Action sortedExpirations) :=
  List.replicate 3 (smoothly [] .wouldBlock 0) ++
    List.replicate 4 (smoothly [⟨4, { read := true }⟩] .wouldBlock 0) ++
    [smoothly [] (.client 7 true) 0, .subReactor 0 (SubReactor.readPing [⟨3, { read := true }⟩])]

end TcpServer

end TinyKv
