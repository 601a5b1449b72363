import Mathlib.Data.Prod.Lex
import TinyKv.App.Dialogue
import TinyKv.Foundation.Liveness
import TinyKv.Net.ConnectionProgress

/-!
# Every line is answered

A client and its session that both go on: the client's calls return, what has arrived is
read, and what is pending is written. While the client waits, each of these brings the
response nearer, and one of them can always happen.
-/

namespace TinyKv

open Foundation FrameCodec

variable {Q : ExpirationQueue}

instance Connection.decidableServing (conn : Connection) : Decidable conn.Serving :=
  inferInstanceAs (Decidable (_ ∧ _))

namespace Link

/-! ### What is left to do -/

/-- What holds of a link in every run. -/
structure Reached (o : NetworkOptions) (l : Link Q) : Prop where
  agreed : l.Agreed o
  flushing : l.conn.Flushing
  phased : l.session.Phased

theorem reached_start (o : NetworkOptions) (fd : Int) (store : Store Q) :
    (start fd store).Reached o :=
  ⟨agreed_start o fd store, Connection.flushing_accepted fd, .running rfl⟩

/-- A step of the client leaves the session alone; any other is one of its own. -/
theorem step_session (o : NetworkOptions) (l : Link Q) (event : LinkEvent Q) :
    (l.step o event).session = l.session ∨
      ∃ own, (l.step o event).session = l.session.step o own := by
  cases event with
  | getline line =>
      left
      rw [step]
      split <;> rfl
  | send result =>
      left
      rw [step]
      split <;> rfl
  | recv answer =>
      left
      rw [step]
      split
      · split <;> rfl
      all_goals rfl
  | ready events recv send ambient modityOk =>
      exact .inr ⟨.ready events ⟨recv.map l.serverSocket.answer, send, ambient⟩ modityOk, rfl⟩
  | beginDrain modityOk => exact .inr ⟨.beginDrain modityOk, rfl⟩
  | forceClose reason => exact .inr ⟨.forceClose reason, rfl⟩
  | abort => exact .inr ⟨.abort, rfl⟩

theorem reached_step {o : NetworkOptions} (ho : o.Accepted) {l : Link Q} (h : l.Reached o)
    (event : LinkEvent Q) : (l.step o event).Reached o := by
  have hagreed := agreed_step ho h.agreed event
  rcases l.step_session o event with hsame | ⟨own, hown⟩
  · refine ⟨hagreed, ?_, ?_⟩
    · rw [conn, hsame]
      exact h.flushing
    · rw [hsame]
      exact h.phased
  · refine ⟨hagreed, ?_, ?_⟩
    · rw [conn, hown]
      exact Session.flushing_step h.flushing own
    · rw [hown]
      exact Session.phased_step h.phased own

/-- What the server has still to read, and whether it still serves and runs. -/
def work (l : Link Q) : Nat :=
  l.toServer.length + (if l.conn.Serving then 1 else 0) +
    (if l.session.phase = .stopped then 0 else 1)

/-- What is on its way to the client; a pending byte has further to go. -/
def traffic (l : Link Q) : Nat := 2 * l.conn.pending.length + l.toClient.length

/-- What is left to do until the client has its response. -/
def rank (l : Link Q) : Nat ×ₗ Nat := toLex (l.work, l.traffic)

theorem rank_lt_of_work {a b : Link Q} (h : a.work < b.work) : a.rank < b.rank :=
  Prod.Lex.toLex_lt_toLex.mpr (.inl h)

theorem rank_lt_of_traffic {a b : Link Q} (hwork : a.work = b.work)
    (h : a.traffic < b.traffic) : a.rank < b.rank :=
  Prod.Lex.toLex_lt_toLex.mpr (.inr ⟨hwork, h⟩)

/-- Two links in which the same is left to do. -/
structure Alike (a b : Link Q) : Prop where
  rank : b.rank = a.rank
  toClient : b.toClient = a.toClient
  pending : b.conn.pending = a.conn.pending
  closed : b.conn.closed = a.conn.closed
  stopped : b.session.phase = .stopped ↔ a.session.phase = .stopped

theorem Alike.refl (l : Link Q) : Alike l l := ⟨rfl, rfl, rfl, rfl, Iff.rfl⟩

/-- A step of the session lowers what is left to do, or leaves it and does not advance the
connection. -/
theorem Reached.served {o : NetworkOptions} {l : Link Q} (h : l.Reached o)
    {event : SessionEvent Q} (harrived : event.arrived <+: l.toServer) :
    (l.served (l.session.step o event)).rank < l.rank ∨
      Alike l (l.served (l.session.step o event)) ∧
        ¬ Connection.Advances l.conn (l.session.step o event).conn := by
  obtain ⟨⟨bytes, hstream, hbytes⟩, more, hsent⟩ := Session.moves_step o l.session event
  have heases : Connection.Eases l.conn _ := Session.eases_step o l.session event
  have hserving := heases.stopped
  have hphase := fun hstopped => Session.step_stopped o (s := l.session) hstopped event
  have htoServer : (l.served (l.session.step o event)).toServer.length + bytes.length =
      l.toServer.length := by
    have hlength := (hbytes.trans harrived).length_le
    change (l.toServer.drop _).length + bytes.length = _
    rw [hstream, List.length_append, Nat.add_sub_cancel_left, List.length_drop]
    omega
  by_cases hwork : (l.served (l.session.step o event)).work < l.work
  · exact .inl (rank_lt_of_work hwork)
  -- nothing has been read, and the session serves and runs as before
  obtain ⟨hnone, hserves, hruns, hsame⟩ : bytes.length = 0 ∧
      (l.conn.Serving ↔ (l.session.step o event).conn.Serving) ∧
      ((l.session.step o event).phase = .stopped ↔ l.session.phase = .stopped) ∧
      (l.served (l.session.step o event)).work = l.work := by
    change ¬ ((l.served (l.session.step o event)).toServer.length +
      (if (l.session.step o event).conn.Serving then 1 else 0) +
      (if (l.session.step o event).phase = .stopped then 0 else 1) < l.work) at hwork
    change _ ∧ _ ∧ _ ∧ (l.served (l.session.step o event)).toServer.length +
      (if (l.session.step o event).conn.Serving then 1 else 0) +
      (if (l.session.step o event).phase = .stopped then 0 else 1) = l.work
    simp only [work] at hwork ⊢
    generalize (l.served (l.session.step o event)).toServer.length = length at *
    grind
  obtain rfl := List.length_eq_zero_iff.mp hnone
  rw [List.append_nil] at hstream
  have htraffic := heases.outcome h.flushing hstream hserves.mp hsent.symm
  have htoClient : (l.served (l.session.step o event)).toClient = l.toClient ++ more := by
    change l.toClient ++ (l.session.step o event).conn.trace.sent.drop _ = _
    rw [← hsent, List.drop_left]
  rcases htraffic with hless | ⟨hpending, rfl, hclosed⟩
  · left
    apply rank_lt_of_traffic hsame
    simp only [traffic, htoClient, List.length_append]
    change 2 * (l.session.step o event).conn.pending.length + _ < 2 * l.conn.pending.length + _
    omega
  · right
    rw [List.append_nil] at htoClient hsent
    refine ⟨⟨?_, htoClient, hpending, hclosed, hruns⟩, ?_⟩
    · rw [rank, rank, hsame, traffic, traffic, htoClient]
      change toLex (_, 2 * (l.session.step o event).conn.pending.length + _) = _
      rw [hpending]
    · intro hadvances
      cases hadvances with
      | read hlonger =>
          rw [hstream] at hlonger
          exact Nat.lt_irrefl _ hlonger
      | stopped hserving hstopped => exact hstopped (hserves.mp hserving)
      | closed hopen hnow =>
          rw [hclosed, hopen] at hnow
          cases hnow
      | sent hlonger =>
          rw [← hsent] at hlonger
          exact Nat.lt_irrefl _ hlonger

/-! ### A client that waits -/

/-- The client sends a line. -/
def Asking (line : Bytes) (before : List (Bytes × Bytes)) (l : Link Q) : Prop :=
  l.client.point = .sendAll line ∧ l.client.printed = before

/-- The client waits for the response to a line. -/
def Waiting (line : Bytes) (before : List (Bytes × Bytes)) (l : Link Q) : Prop :=
  l.client.point = .recvFrame line ∧ l.client.printed = before

/-- The client has printed a response to the line. -/
def Answered (line : Bytes) (before : List (Bytes × Bytes)) (l : Link Q) : Prop :=
  ∃ response, l.client.printed = before ++ [(line, response)]

/-- A call of the client has failed. -/
def Failed (l : Link Q) : Prop :=
  l.client.point = .threw .sendFailed ∨ l.client.point = .threw .recvFailed

/-- There is something for the client's `recv` to return. -/
def Receivable (l : Link Q) : Prop :=
  l.toClient ≠ [] ∨ l.conn.closed = true ∨ l.session.phase = .stopped

/-- The session's connection reads, and there is something to read. -/
def Readable (l : Link Q) : Prop :=
  l.conn.closed = false ∧ l.session.phase = .running ∧ l.conn.desiredEvents.read = true ∧
    l.toServer ≠ []

/-- The session's connection has something to write. -/
def Writable (l : Link Q) : Prop :=
  l.conn.closed = false ∧ l.session.phase ≠ .stopped ∧ l.conn.desiredEvents.write = true

variable {o : NetworkOptions} {l : Link Q} {line : Bytes} {before : List (Bytes × Bytes)}

/-- A `recv` of the client that returns brings the response nearer, prints it or fails. -/
theorem Reached.receives (h : l.Reached o) (hwaiting : l.Waiting line before)
    {answer : Socket.Answer} (hreturns : l.clientSocket.answer answer ≠ .wouldBlock) :
    (l.step o (.recv answer)).Waiting line before ∧ (l.step o (.recv answer)).rank < l.rank ∨
      (l.step o (.recv answer)).Answered line before ∨ (l.step o (.recv answer)).Failed := by
  obtain ⟨hpoint, hprinted⟩ := hwaiting
  rw [step, hpoint]
  simp only
  cases hanswer : l.clientSocket.answer answer with
  | wouldBlock => exact absurd hanswer hreturns
  | failed => exact .inr (.inr (.inr rfl))
  | bytes ready =>
      simp only
      by_cases hnil : ready.take Client.recvSize = []
      · -- the end of the stream
        rw [Client.recvFrame, if_pos hnil]
        exact .inr (.inr (.inr rfl))
      have hreceived : ready.take Client.recvSize <+: l.toClient :=
        (List.take_prefix ..).trans (Socket.answer_prefix hanswer)
      obtain ⟨haccepted, -⟩ := h.agreed.received hreceived
      have houtcome := Client.recvFrame_outcome line hnil haccepted
      generalize l.client.recvFrame line (.bytes ready) = client at houtcome ⊢
      cases houtcome with
      | incomplete hitems =>
          left
          refine ⟨⟨hpoint, hprinted⟩, rank_lt_of_traffic rfl ?_⟩
          have hlength := hreceived.length_le
          have hpos := List.length_pos_iff.mpr hnil
          change 2 * l.conn.pending.length + (l.toClient.drop _).length < l.traffic
          rw [traffic, List.length_drop]
          omega
      | complete response others quit hitems =>
          exact .inr (.inl ⟨response, congrArg (· ++ [(line, response)]) hprinted⟩)

/-- Any step while the client waits: the response is printed, a call fails, or the client
waits on, with less left to do or as much. In the latter case the step was none that helps. -/
theorem Reached.waits (h : l.Reached o) (hwaiting : l.Waiting line before)
    (event : LinkEvent Q) :
    (l.step o event).Answered line before ∨ (l.step o event).Failed ∨
      (l.step o event).Waiting line before ∧ ((l.step o event).rank < l.rank ∨
        Alike l (l.step o event) ∧ ¬ Connection.Advances l.conn (l.step o event).conn) := by
  have hstays : ¬ Connection.Advances l.conn l.conn := by
    intro hadvances
    cases hadvances with
    | read hlonger => exact Nat.lt_irrefl _ hlonger
    | stopped hserving hstopped => exact hstopped hserving
    | closed hopen hclosed =>
        rw [hopen] at hclosed
        cases hclosed
    | sent hlonger => exact Nat.lt_irrefl _ hlonger
  have hserved {own : SessionEvent Q} (harrived : own.arrived <+: l.toServer) :
      (l.served (l.session.step o own)).Waiting line before ∧
        ((l.served (l.session.step o own)).rank < l.rank ∨
          Alike l (l.served (l.session.step o own)) ∧
            ¬ Connection.Advances l.conn (l.served (l.session.step o own)).conn) :=
    ⟨hwaiting, h.served harrived⟩
  cases event with
  | getline line =>
      right; right
      rw [step, if_neg (by simp [hwaiting.1])]
      exact ⟨hwaiting, .inr ⟨.refl l, hstays⟩⟩
  | send result =>
      right; right
      rw [step, hwaiting.1]
      exact ⟨hwaiting, .inr ⟨.refl l, hstays⟩⟩
  | recv answer =>
      by_cases hblocks : l.clientSocket.answer answer = .wouldBlock
      · right; right
        rw [step, hwaiting.1]
        simp only [hblocks]
        exact ⟨hwaiting, .inr ⟨.refl l, hstays⟩⟩
      · rcases h.receives hwaiting hblocks with ⟨hnext, hlower⟩ | hanswered | hfailed
        · exact .inr (.inr ⟨hnext, .inl hlower⟩)
        · exact .inl hanswered
        · exact .inr (.inl hfailed)
  | ready events recv send ambient modityOk =>
      exact .inr (.inr (hserved (l.arrived_prefix recv send ambient)))
  | beginDrain modityOk => exact .inr (.inr (hserved List.nil_prefix))
  | forceClose reason => exact .inr (.inr (hserved List.nil_prefix))
  | abort => exact .inr (.inr (hserved List.nil_prefix))

theorem answer_of_receivable (h : l.Receivable) (answer : Socket.Answer) :
    l.clientSocket.answer answer ≠ .wouldBlock := by
  cases answer with
  | failed => simp [Socket.answer]
  | upTo more =>
      by_cases hnil : l.toClient = []
      · have hgone : l.conn.closed = true ∨ l.session.phase = .stopped :=
          h.resolve_left (not_not_intro hnil)
        simp [Socket.answer, clientSocket, hnil, hgone]
      · simp [Socket.answer, clientSocket, hnil]

/-- A client that waits with nothing to receive, on a connection with nothing to write: the
connection reads, and there is something to read. -/
theorem Reached.readable (h : l.Reached o) (hwaiting : l.Waiting line before)
    (hreceivable : ¬ l.Receivable) (hpending : l.conn.pending = []) :
    l.conn.Reading ∧ l.Readable := by
  simp only [Receivable, not_or, not_not, Bool.not_eq_true] at hreceivable
  obtain ⟨hclient, hopen, hran⟩ := hreceivable
  have hempty : l.conn.writeBuffer.isEmpty = true := (OutputBuffer.isEmpty_iff _).mpr hpending
  have hread : l.conn.readPaused = false ∧ l.conn.closeAfterWrite = false := by
    by_contra hidle
    apply h.agreed.interested hopen
    rw [← Bool.not_eq_true, ← Bool.not_eq_true, ← not_or] at hidle
    simp only [not_not] at hidle
    rcases hidle with hpaused | hclose
    · simp [Connection.desiredEvents, hopen, hpaused, hempty, IoEvent.none]
    · simp [Connection.desiredEvents, hopen, hclose, hempty, IoEvent.none]
  have hrunning : l.session.phase = .running := by
    cases h.phased with
    | running hphase => exact hphase
    | draining _ hstopped => exact absurd ⟨hopen, hread.2⟩ hstopped
    | stopped hphase => exact absurd hphase hran
  have hserver : l.toServer ≠ [] := by
    rcases h.agreed.lively hwaiting.1 hopen with hserver | hmore | hmore
    · exact hserver
    · exact absurd hpending hmore
    · exact absurd hclient hmore
  refine ⟨⟨hopen, hread.1, hread.2⟩, hopen, hrunning, ?_, hserver⟩
  simp [Connection.desiredEvents, hopen, hread]

theorem writable_of_pending (hreceivable : ¬ l.Receivable) (hpending : l.conn.pending ≠ []) :
    l.Writable := by
  simp only [Receivable, not_or, not_not, Bool.not_eq_true] at hreceivable
  obtain ⟨-, hopen, hran⟩ := hreceivable
  have hempty : l.conn.writeBuffer.isEmpty = false := by
    by_contra hempty
    exact hpending ((OutputBuffer.isEmpty_iff _).mp (Bool.not_eq_false _ ▸ hempty))
  exact ⟨hopen, hran, by simp [Connection.desiredEvents, hopen, hempty]⟩

/-- Writing what is pending advances the connection. -/
theorem Writable.advances (h : l.Writable) (hpending : l.conn.pending ≠ []) {events : IoEvent}
    (hwrite : events.write = true) (recv : Syscall Socket.Answer) {send : Syscall SendResult}
    (hsend : send.result ≠ .wouldBlock) (ambient : Nat → Ambient Q) (modityOk : Bool) :
    Connection.Advances l.conn (l.step o (.ready events recv send ambient modityOk)).conn := by
  obtain ⟨hopen, hran, -⟩ := h
  obtain ⟨registered, heq⟩ := Session.step_ready hran o events
    ⟨recv.map l.serverSocket.answer, send, ambient⟩ modityOk
  change Connection.Advances l.conn (l.session.step o _).conn
  rw [heq]
  have hadvances : Connection.Advances l.conn (l.conn.handleEvent o l.session.phase events
      ⟨recv.map l.serverSocket.answer, send, ambient⟩ l.session.store).1.1 :=
    Connection.advances_of_write hopen hpending o _ hwrite hsend _
  exact hadvances.delivers (.register _ registered)

/-- Reading what has arrived advances the connection. -/
theorem Readable.advances (h : l.Readable) (hreading : l.conn.Reading) {events : IoEvent}
    (hread : events.read = true) (recv : Syscall Socket.Answer) (send : Syscall SendResult)
    (ambient : Nat → Ambient Q) (modityOk : Bool) :
    Connection.Advances l.conn (l.step o (.ready events recv send ambient modityOk)).conn := by
  obtain ⟨-, hrunning, -, hserver⟩ := h
  obtain ⟨registered, heq⟩ := Session.step_ready (s := l.session) (by simp [hrunning]) o events
    ⟨recv.map l.serverSocket.answer, send, ambient⟩ modityOk
  change Connection.Advances l.conn (l.session.step o _).conn
  rw [heq, hrunning]
  have hrecv : (recv.map l.serverSocket.answer).result ≠ .wouldBlock := by
    rw [Syscall.result_map]
    cases recv.result with
    | failed => simp [Socket.answer]
    | upTo more => simp [Socket.answer, serverSocket, hserver]
  have hadvances : Connection.Advances l.conn (l.conn.handleEvent o .running events
      ⟨recv.map l.serverSocket.answer, send, ambient⟩ l.session.store).1.1 :=
    Connection.advances_of_read hreading o hread hrecv _
  exact hadvances.delivers (.register _ registered)

/-! ### Executions that go on -/

/-- Both sides go on: the client makes its calls, a `recv` being made again as long as it
would block; what has arrived is read again and again, and what is pending is written
without blocking again and again, unless the connection stops asking for it. -/
structure Fair (x : Execution (machine (Q := Q) o)) : Prop where
  sends : x.Recurs fun _ event => ∃ result, event = .send result
  receives : x.Recurs fun _ event => ∃ answer, event = .recv answer
  reads : x.Settles (fun l _ => l.Readable) → x.Recurs fun _ event =>
    ∃ events recv send ambient modityOk,
      event = .ready events recv send ambient modityOk ∧ events.read = true
  writes : x.Settles (fun l _ => l.Writable) → x.Recurs fun _ event =>
    ∃ events recv send ambient modityOk,
      event = .ready events recv send ambient modityOk ∧ events.write = true ∧
        send.result ≠ .wouldBlock

variable {x : Execution (machine (Q := Q) o)}

theorem reached_execution (ho : o.Accepted) {fd : Int} {store : Store Q}
    (hstart : x.state 0 = start fd store) (n : Nat) : (x.state n).Reached o := by
  refine Execution.invariant (x := x) (I := fun l => l.Reached o) ?_ ?_ n
  · exact fun _ event h => reached_step ho h event
  · rw [hstart]
    exact reached_start o fd store

/-- While the client waits, every phase brings the response nearer. Which step helps depends
on whether there is something to receive, to write or to read. -/
theorem waiting_leadsTo_lower (hreached : ∀ n, (x.state n).Reached o) (hfair : Fair x)
    (line : Bytes) (before : List (Bytes × Bytes)) (w : Nat ×ₗ Nat) :
    x.LeadsTo (fun l => l.Waiting line before ∧ l.rank = w) fun l =>
      (l.Answered line before ∨ l.Failed) ∨ l.Waiting line before ∧ l.rank < w := by
  -- a step that does not help leaves the link as it is, as far as the phases go
  have hstays {E : Link Q → Prop} (hkeeps : ∀ {a b : Link Q}, Alike a b → E a → E b) (n : Nat) :
      ((x.state n).Waiting line before ∧ (x.state n).rank = w) ∧ E (x.state n) →
        (((x.state (n + 1)).Waiting line before ∧ (x.state (n + 1)).rank = w) ∧
          E (x.state (n + 1))) ∨
        (((x.state (n + 1)).Answered line before ∨ (x.state (n + 1)).Failed) ∨
          (x.state (n + 1)).Waiting line before ∧ (x.state (n + 1)).rank < w) := by
    rintro ⟨⟨hwaiting, hrank⟩, he⟩
    have hstep := (hreached n).waits hwaiting (x.event n)
    rw [x.next n]
    rcases hstep with hanswered | hfailed | ⟨hnext, hlower | ⟨halike, -⟩⟩
    · exact .inr (.inl (.inl hanswered))
    · exact .inr (.inl (.inr hfailed))
    · exact .inr (.inr ⟨hnext, hrank ▸ hlower⟩)
    · exact .inl ⟨⟨hnext, halike.rank.trans hrank⟩, hkeeps halike he⟩
  have hadvances (n : Nat) (hwaiting : (x.state n).Waiting line before)
      (hrank : (x.state n).rank = w)
      (hmoves : Connection.Advances (x.state n).conn
        ((x.state n).step o (x.event n)).conn) :
      ((x.state (n + 1)).Answered line before ∨ (x.state (n + 1)).Failed) ∨
        (x.state (n + 1)).Waiting line before ∧ (x.state (n + 1)).rank < w := by
    have hstep := (hreached n).waits hwaiting (x.event n)
    rw [x.next n]
    rcases hstep with hanswered | hfailed | ⟨hnext, hlower | ⟨-, hidle⟩⟩
    · exact .inl (.inl hanswered)
    · exact .inl (.inr hfailed)
    · exact .inr ⟨hnext, hrank ▸ hlower⟩
    · exact absurd hmoves hidle
  apply Execution.LeadsTo.of_cases (E := Receivable)
  · apply Execution.LeadsTo.of_step hfair.receives
    · apply hstays
      intro a b halike
      rw [Receivable, Receivable, halike.toClient, halike.closed, halike.stopped]
      exact id
    · rintro n ⟨⟨hwaiting, hrank⟩, hreceivable⟩ ⟨answer, hevent⟩
      have hstep := (hreached n).receives hwaiting (answer_of_receivable hreceivable answer)
      rw [x.next n, hevent]
      rcases hstep with ⟨hnext, hlower⟩ | hanswered | hfailed
      · exact .inr ⟨hnext, hrank ▸ hlower⟩
      · exact .inl (.inl hanswered)
      · exact .inl (.inr hfailed)
  have hnone {a b : Link Q} (halike : Alike a b) (h : ¬ a.Receivable) : ¬ b.Receivable := by
    rw [Receivable, halike.toClient, halike.closed, halike.stopped]
    exact h
  apply Execution.LeadsTo.of_cases (E := fun l => l.conn.pending ≠ [])
  · apply Execution.LeadsTo.of_settled hfair.writes
    · rintro n ⟨⟨hphase, hreceivable⟩, hpending⟩
      have hkept := hstays (E := fun l => ¬ l.Receivable ∧ l.conn.pending ≠ [])
        (fun halike h => ⟨hnone halike h.1, halike.pending ▸ h.2⟩) n
        ⟨hphase, hreceivable, hpending⟩
      exact hkept.imp_left fun ⟨hphase, hreceivable, hpending⟩ => ⟨⟨hphase, hreceivable⟩, hpending⟩
    · rintro n ⟨⟨-, hreceivable⟩, hpending⟩
      exact writable_of_pending hreceivable hpending
    · rintro n ⟨⟨⟨hwaiting, hrank⟩, hreceivable⟩, hpending⟩
        ⟨events, recv, send, ambient, modityOk, hevent, hwrite, hsend⟩
      apply hadvances n hwaiting hrank
      rw [hevent]
      exact (writable_of_pending hreceivable hpending).advances hpending hwrite recv hsend
        ambient modityOk
  · apply Execution.LeadsTo.of_settled hfair.reads
    · rintro n ⟨⟨hphase, hreceivable⟩, hpending⟩
      have hkept := hstays (E := fun l => ¬ l.Receivable ∧ ¬ l.conn.pending ≠ [])
        (fun halike h => ⟨hnone halike h.1, halike.pending ▸ h.2⟩) n
        ⟨hphase, hreceivable, hpending⟩
      exact hkept.imp_left fun ⟨hphase, hreceivable, hpending⟩ => ⟨⟨hphase, hreceivable⟩, hpending⟩
    · rintro n ⟨⟨⟨hwaiting, -⟩, hreceivable⟩, hpending⟩
      exact ((hreached n).readable hwaiting hreceivable (not_not.mp hpending)).2
    · rintro n ⟨⟨⟨hwaiting, hrank⟩, hreceivable⟩, hpending⟩
        ⟨events, recv, send, ambient, modityOk, hevent, hread⟩
      apply hadvances n hwaiting hrank
      rw [hevent]
      obtain ⟨hreading, hreadable⟩ :=
        (hreached n).readable hwaiting hreceivable (not_not.mp hpending)
      exact hreadable.advances hreading hread recv send ambient modityOk

/-- A client that waits gets a response, or a call of it fails. -/
theorem waiting_leadsTo_answered (hreached : ∀ n, (x.state n).Reached o) (hfair : Fair x)
    (line : Bytes) (before : List (Bytes × Bytes)) :
    x.LeadsTo (Waiting line before) fun l => l.Answered line before ∨ l.Failed :=
  Execution.LeadsTo.of_rank rank (waiting_leadsTo_lower hreached hfair line before)

/-- Any step while the client sends: it goes on to wait, a call fails, or it sends on, with
less left to send unless the step was none of its own. -/
theorem sends_on (hasking : l.Asking line before) (event : LinkEvent Q) :
    (l.step o event).Waiting line before ∨ (l.step o event).Failed ∨
      (l.step o event).Asking line before ∧
        ((l.step o event).client.unsent.length < l.client.unsent.length ∨
          (l.step o event).client.unsent = l.client.unsent ∧ ∀ result, event ≠ .send result) := by
  obtain ⟨hpoint, hprinted⟩ := hasking
  cases event with
  | getline line =>
      rw [step, if_neg (by simp [hpoint])]
      exact .inr (.inr ⟨⟨hpoint, hprinted⟩, .inr ⟨rfl, by simp⟩⟩)
  | send result =>
      rw [step, hpoint]
      simp only
      have houtcome := l.client.sendAll_outcome line result
      generalize l.client.sendAll line result = sent at houtcome ⊢
      cases houtcome with
      | failed => exact .inr (.inl (.inl rfl))
      | part bytes more hunsent hbytes hmore =>
          refine .inr (.inr ⟨⟨hpoint, hprinted⟩, .inl ?_⟩)
          have hpos := List.length_pos_iff.mpr hbytes
          rw [hunsent, List.length_append]
          simp only
          omega
      | all => exact .inl ⟨rfl, hprinted⟩
  | recv answer =>
      rw [step, hpoint]
      exact .inr (.inr ⟨⟨hpoint, hprinted⟩, .inr ⟨rfl, by simp⟩⟩)
  | ready events recv send ambient modityOk =>
      exact .inr (.inr ⟨⟨hpoint, hprinted⟩, .inr ⟨rfl, by simp⟩⟩)
  | beginDrain modityOk => exact .inr (.inr ⟨⟨hpoint, hprinted⟩, .inr ⟨rfl, by simp⟩⟩)
  | forceClose reason => exact .inr (.inr ⟨⟨hpoint, hprinted⟩, .inr ⟨rfl, by simp⟩⟩)
  | abort => exact .inr (.inr ⟨⟨hpoint, hprinted⟩, .inr ⟨rfl, by simp⟩⟩)

theorem asking_leadsTo_waiting (hfair : Fair x) (line : Bytes) (before : List (Bytes × Bytes)) :
    x.LeadsTo (Asking line before) fun l => l.Waiting line before ∨ l.Failed := by
  apply Execution.LeadsTo.of_rank fun l => l.client.unsent.length
  intro w
  apply Execution.LeadsTo.of_step hfair.sends
  · rintro n ⟨hasking, hrank⟩
    have hstep := sends_on (o := o) hasking (x.event n)
    rw [x.next n]
    rcases hstep with hwaiting | hfailed | ⟨hnext, hless | ⟨hsame, -⟩⟩
    · exact .inr (.inl (.inl hwaiting))
    · exact .inr (.inl (.inr hfailed))
    · exact .inr (.inr ⟨hnext, hrank ▸ hless⟩)
    · exact .inl ⟨hnext, (congrArg List.length hsame).trans hrank⟩
  · rintro n ⟨hasking, hrank⟩ ⟨result, hevent⟩
    have hstep := sends_on (o := o) hasking (x.event n)
    rw [x.next n]
    rcases hstep with hwaiting | hfailed | ⟨hnext, hless | ⟨-, hother⟩⟩
    · exact .inl (.inl hwaiting)
    · exact .inl (.inr hfailed)
    · exact .inr ⟨hnext, hrank ▸ hless⟩
    · exact absurd hevent (hother result)

/-! ### What makes a call fail -/

/-- A step in which a call of the client fails or the server has left. -/
inductive Broken (l : Link Q) : LinkEvent Q → Prop where
  | send (result : SendResult) (h : ∀ bytes, result ≠ .accepted (bytes + 1)) :
      Broken l (.send result)
  | recv : Broken l (.recv .failed)
  | left (event : LinkEvent Q) (h : l.conn.closed = true ∨ l.session.phase = .stopped) :
      Broken l event

/-- Without such steps no call fails. -/
theorem Reached.unbroken (h : l.Reached o) (hunfailed : ¬ l.Failed) {event : LinkEvent Q}
    (hunbroken : ¬ l.Broken event) : ¬ (l.step o event).Failed := by
  cases event with
  | getline line =>
      rw [step]
      split
      · next hpoint =>
        have houtcome := l.client.getline_outcome line
        generalize l.client.getline line = client at houtcome ⊢
        cases houtcome with
        | ended => simp [Failed]
        | empty => exact hunfailed
        | refused e herror => simp [Failed]
        | encoded line hfits => simp [Failed]
      · exact hunfailed
  | send result =>
      cases hpoint : l.client.point with
      | sendAll line =>
          obtain ⟨bytes, rfl⟩ : ∃ bytes, result = .accepted (bytes + 1) := by
            by_contra hnone
            exact hunbroken (.send result fun bytes heq => hnone ⟨bytes, heq⟩)
          have hunsent : l.client.unsent ≠ [] := by
            cases h.agreed.orderly with
            | sending _ _ _ _ hunsent => exact hunsent
            | prompt hprompt => rw [hpoint] at hprompt; cases hprompt
            | receiving line hreceiving => rw [hpoint] at hreceiving; cases hreceiving
            | ended hgone => simp [Client.gone, hpoint] at hgone
          have hpos := List.length_pos_iff.mpr hunsent
          rw [step, hpoint]
          simp only [Client.sendAll]
          rw [if_neg (by omega)]
          split
          · simp [Failed, hpoint]
          · simp [Failed]
      | prompt => rwa [step, hpoint]
      | recvFrame line => rwa [step, hpoint]
      | returned => rwa [step, hpoint]
      | threw error => rwa [step, hpoint]
  | recv answer =>
      cases hpoint : l.client.point with
      | recvFrame line =>
          rw [step, hpoint]
          simp only
          cases hanswer : l.clientSocket.answer answer with
          | wouldBlock => exact hunfailed
          | failed =>
              exfalso
              apply hunbroken
              cases answer with
              | failed => exact .recv
              | upTo more =>
                  rw [Socket.answer] at hanswer
                  split at hanswer
                  · split at hanswer <;> cases hanswer
                  · cases hanswer
          | bytes ready =>
              simp only
              by_cases hnil : ready.take Client.recvSize = []
              · -- the stream has ended, so the server has left
                exfalso
                obtain ⟨-, hgone⟩ := Socket.answer_nil hanswer (by decide) hnil
                exact hunbroken (.left _ (by simpa [clientSocket] using hgone))
              obtain ⟨haccepted, -⟩ := h.agreed.received
                ((List.take_prefix ..).trans (Socket.answer_prefix hanswer))
              have houtcome := Client.recvFrame_outcome line hnil haccepted
              generalize l.client.recvFrame line (.bytes ready) = client at houtcome ⊢
              cases houtcome with
              | incomplete hitems => simp [Failed, hpoint]
              | complete response others quit hitems => cases quit <;> simp [Failed]
      | prompt => rwa [step, hpoint]
      | sendAll line => rwa [step, hpoint]
      | returned => rwa [step, hpoint]
      | threw error => rwa [step, hpoint]
  | ready events recv send ambient modityOk => exact hunfailed
  | beginDrain modityOk => exact hunfailed
  | forceClose reason => exact hunfailed
  | abort => exact hunfailed

/-- In every execution of a client and its connection that both go on, a line that is being
sent is answered or a call of the client fails; and no call fails unless the kernel makes it
fail, the connection is closed or the server stops. -/
theorem line_answered {o : NetworkOptions} (ho : o.Accepted) {x : Execution (machine (Q := Q) o)}
    {fd : Int} {store : Store Q} (hstart : x.state 0 = start fd store) (hfair : Fair x)
    (line : Bytes) (before : List (Bytes × Bytes)) :
    x.LeadsTo (Asking line before) (fun l => l.Answered line before ∨ l.Failed) ∧
      ((∀ n, ¬ (x.state n).Broken (x.event n)) →
        x.LeadsTo (Asking line before) (Answered line before)) := by
  have hreached := reached_execution ho hstart
  have hends : x.LeadsTo (Asking line before) fun l => l.Answered line before ∨ l.Failed := by
    apply (asking_leadsTo_waiting hfair line before).trans
    rintro n (hwaiting | hfailed)
    · exact waiting_leadsTo_answered hreached hfair line before n hwaiting
    · exact ⟨n, le_rfl, .inr hfailed⟩
  refine ⟨hends, fun hunbroken n hasking => ?_⟩
  have hunfailed : ∀ m, ¬ (x.state m).Failed := by
    intro m
    induction m with
    | zero =>
        rw [hstart]
        simp [Failed, start]
    | succ m ih =>
        rw [x.next m]
        exact (hreached m).unbroken ih (hunbroken m)
  obtain ⟨m, hm, hanswered | hfailed⟩ := hends n hasking
  · exact ⟨m, hm, hanswered⟩
  · exact absurd hfailed (hunfailed m)

/-- A client that asks once, and calls that return for ever. -/
def pingSchedule (n : Nat) : LinkEvent sortedExpirations :=
  if n = 0 then
    .getline (some (ascii "PING"))
  else if n % 4 = 1 then
    .send (.accepted 3)
  else if n % 4 = 2 then
    .ready { read := true } (.returned (.upTo 2)) (.returned .wouldBlock) Session.quiet true
  else if n % 4 = 3 then
    .ready { write := true } (.returned .failed) (.returned (.accepted 4)) Session.quiet true
  else
    .recv (.upTo 1)

theorem line_answered_ping :
    let x := Execution.under (machine {}) (start 5 Store.empty) pingSchedule
    ∃ m ≥ 1, (x.state m).Answered (ascii "PING") [] ∨ (x.state m).Failed := by
  refine (line_answered (NetworkOptions.check_ok_iff.mp rfl) rfl ⟨?_, ?_, ?_, ?_⟩
    (ascii "PING") []).1 1 ⟨rfl, rfl⟩
  · intro n
    refine ⟨4 * n + 1, by omega, .accepted 3, ?_⟩
    simp [Execution.under, pingSchedule]
  · intro n
    refine ⟨4 * n + 4, by omega, .upTo 1, ?_⟩
    have hmod : (4 * n + 4) % 4 = 0 := by omega
    simp [Execution.under, pingSchedule, hmod]
  · intro _ n
    refine ⟨4 * n + 2, by omega, { read := true }, .returned (.upTo 2), .returned .wouldBlock,
      Session.quiet, true, ?_, rfl⟩
    have hmod : (4 * n + 2) % 4 = 2 := by omega
    simp [Execution.under, pingSchedule, hmod]
  · intro _ n
    refine ⟨4 * n + 3, by omega, { write := true }, .returned .failed, .returned (.accepted 4),
      Session.quiet, true, ?_, rfl, by simp [Syscall.result]⟩
    have hmod : (4 * n + 3) % 4 = 3 := by omega
    simp [Execution.under, pingSchedule, hmod]

end Link

end TinyKv
