import TinyKv.Net.ConnectionDialogue
import TinyKv.Net.FinalResponse
import TinyKv.Net.ReactorSessions

/-!
# How connections leave

A connection that leaves in order, after QUIT or a hangup or because the server drains, has
executed all requests of what it has read and has been sent all their responses. Whatever
else makes a connection leave shows in the cause it was closed with, or in the failure of
the event loop.
-/

namespace TinyKv

open Foundation FrameCodec

variable {Q : ExpirationQueue}

namespace Connection

/-- The causes that close a connection only when nothing is pending. -/
def orderly : CloseCause → Bool
  | .flushed | .hangup | .noInterest | .drained => true
  | _ => false

/-- A close that may lose something. -/
def Broken (conn : Connection) : Prop := ∃ cause ∈ conn.trace.causes, orderly cause = false

/-- The client has been sent the responses to all executed payloads, in order, and at most
one error after them. -/
def Fulfilled (conn : Connection) : Prop :=
  ∃ final, (final = [] ∨ final = [protocolError] ∨ final = [requestBufferTooLarge]) ∧
    conn.trace.sent = (conn.trace.executed.map Prod.snd ++ final).flatMap frameOf

/-- What is read is executed up to the first QUIT, unless it is malformed. -/
def Obeyed (conn : Connection) : Prop :=
  (frameParser.drain conn.stream).rejected = true ∨
    conn.executedPayloads = requestsOf conn.stream

/-- Unless it is broken, a connection executes what it reads, and when it closes its
responses have been sent. -/
structure Concluded (conn : Connection) : Prop where
  obeyed : conn.Broken ∨ conn.Obeyed
  fulfilled : conn.closed = true → conn.Broken ∨ conn.Fulfilled

variable {o : NetworkOptions} {conn after : Connection}

theorem concluded_accepted (fd : Int) : (accepted fd).Concluded where
  obeyed := .inr (.inr rfl)
  fulfilled hclosed := by cases hclosed

theorem broken_markClosed (conn : Connection) {cause : CloseCause} (h : orderly cause = false) :
    (conn.markClosed cause).Broken :=
  ⟨cause, List.mem_append_right _ (List.mem_singleton_self cause), h⟩

theorem Broken.of_subset (h : conn.Broken) (hcauses : conn.trace.causes ⊆ after.trace.causes) :
    after.Broken := by
  obtain ⟨cause, hmem, hcause⟩ := h
  exact ⟨cause, hcauses hmem, hcause⟩

theorem concluded_of_broken (h : conn.Broken) : conn.Concluded := ⟨.inl h, fun _ => .inl h⟩

/-- An open connection that is sent the rest is fulfilled. -/
theorem fulfilled_of_sent (h : conn.Intact) (hopen : conn.closed = false)
    (hexecuted : after.trace.executed = conn.trace.executed)
    (hsent : after.trace.sent = conn.trace.sent ++ conn.pending) : after.Fulfilled := by
  have hstream := h.stream hopen
  rw [Fulfilled, hsent, hstream, hexecuted]
  obtain hanswers | ⟨-, final, hfinal, hanswers⟩ := h.answered hopen
  · exact ⟨[], .inl rfl, by rw [hanswers, List.append_nil]⟩
  · refine ⟨[final], ?_, by rw [hanswers]⟩
    obtain rfl | rfl := hfinal
    · exact .inr (.inl rfl)
    · exact .inr (.inr rfl)

theorem Concluded.delivers (h : conn.Concluded) (hintact : conn.Intact)
    (hdelivers : Delivers conn after) : after.Concluded where
  obeyed := by
    obtain hbroken | hobeyed := h.obeyed
    · exact .inl (hbroken.of_subset hdelivers.causes.subset)
    · right
      rw [Obeyed, hdelivers.stream, hdelivers.executedPayloads]
      exact hobeyed
  fulfilled hclosed := by
    cases hbefore : conn.closed with
    | false =>
        obtain ⟨-, hsent | herror | hfailed⟩ := hdelivers.closing hbefore hclosed
        · exact .inr (fulfilled_of_sent hintact hbefore hdelivers.executed hsent)
        · exact .inl ⟨_, herror, rfl⟩
        · exact .inl ⟨_, hfailed, rfl⟩
    | true =>
        obtain ⟨bytes, hsent, -, -, hstop, -⟩ := hdelivers.delivered
        rw [hstop hbefore, List.append_nil] at hsent
        apply (h.fulfilled hbefore).imp
        · exact fun hbroken => hbroken.of_subset hdelivers.causes.subset
        · rintro ⟨final, hfinal, hall⟩
          exact ⟨final, hfinal, by rw [hsent, hdelivers.executed, hall]⟩

/-! ### Reading -/

/-- One `recv` result: the connection is refused a response, or goes on. -/
theorem Concluded.received {bytes : Bytes} (hparsed : conn.Parsed) (hdismissed : conn.Dismissed)
    (hserving : conn.Serving) (h : Received conn after bytes) : after.Concluded := by
  obtain ⟨haccepted, hbuffer, hexecuted⟩ := hparsed hserving
  have hquit := hdismissed.serving hserving
  have hstream : after.stream = conn.stream ++ bytes := by simp [stream, h.received]
  have hdrain := frameParser.drain_append haccepted bytes
  rw [← hbuffer, ← hstream] at hdrain
  obtain ⟨-, hrefused | hrefused⟩ | ⟨hopen, -, -, hcase⟩ := h.outcome
  · exact concluded_of_broken ⟨_, hrefused, rfl⟩
  · exact concluded_of_broken ⟨_, hrefused, rfl⟩
  refine ⟨.inr ?_, fun hclosed => ?_⟩
  · cases hrejected : (frameParser.drain (conn.readBuffer ++ bytes)).rejected with
    | true => exact .inl (by rw [hdrain, hrejected])
    | false =>
        rw [if_neg (by simp [hrejected])] at hcase
        right
        rw [hexecuted] at hquit
        rw [hcase.1, hexecuted, requestsOf, hdrain, throughQuit_append hquit]
  · rw [hopen] at hclosed
    cases hclosed

theorem Concluded.rejectOversizedReadBuffer (h : conn.Concluded) (hopen : conn.closed = false) :
    (conn.rejectOversizedReadBuffer o).Concluded := by
  rw [rejectOversizedReadBuffer_eq]
  rcases queueResponse_cases o conn (ascii "-ERR request buffer too large") with
    ⟨cause, calls, -, -, heq⟩ | ⟨paused, calls, -, -, -, heq⟩
  · rw [heq]
    exact concluded_of_broken (broken_markClosed _ rfl)
  · rw [heq]
    refine ⟨h.obeyed, fun hclosed => ?_⟩
    change conn.closed = true at hclosed
    rw [hopen] at hclosed
    cases hclosed

theorem Concluded.handleClientRead (h : conn.Concluded) (hparsed : conn.Parsed)
    (hdismissed : conn.Dismissed) (input : IoInput Q) (store : Store Q) :
    (conn.handleClientRead o input store).1.Concluded := by
  by_cases hreading : conn.Reading
  swap
  · rw [handleClientRead_refused hreading]
    exact h
  have houtcome := handleClientRead_outcome hreading o input store
  generalize conn.handleClientRead o input store = result at houtcome ⊢
  cases houtcome with
  | oversized hfull => exact h.rejectOversizedReadBuffer hreading.opened
  | ended hroom hrecv hnil =>
      rw [receiveEnd_eq]
      exact concluded_of_broken (broken_markClosed _ rfl)
  | bytes hroom hrecv hnil =>
      exact .received hparsed hdismissed ⟨hreading.opened, hreading.serving⟩
        (received_receiveBytes o input.ambient store hreading.opened hreading.serving _)
  | wouldBlock hrecv => exact h
  | failed hrecv => exact concluded_of_broken (broken_markClosed _ rfl)

theorem Concluded.handleEvent (h : conn.Concluded) (hconversed : conn.Conversed o)
    (hdismissed : conn.Dismissed) (state : ServerState) (events : IoEvent) (input : IoInput Q)
    (store : Store Q) : (conn.handleEvent o state events input store).1.1.Concluded := by
  rw [handleEvent_cases]
  split
  · exact concluded_of_broken (broken_markClosed conn rfl)
  split
  · exact (h.handleClientRead hconversed.parsed hdismissed input store).delivers
      (hconversed.intact.handleClientRead o input store) (delivers_afterRead o events input _)
  · exact h.delivers hconversed.intact (delivers_afterRead o events input conn)

end Connection

namespace Session

theorem concluded_step {o : NetworkOptions} {s : Session Q} (hconversed : s.conn.Conversed o)
    (hdismissed : s.conn.Dismissed) (h : s.conn.Concluded) (event : SessionEvent Q) :
    (s.step o event).conn.Concluded := by
  rcases step_conn o s event with heq | ⟨reason, heq⟩ | ⟨registered, heq⟩ |
    ⟨events, input, registered, -, heq⟩
  · rw [heq]
    exact h
  · rw [heq]
    apply Connection.concluded_of_broken
    apply Connection.broken_markClosed
    cases reason with
    | deadline => rfl
    | forceStop => rfl
  · rw [heq]
    exact h.delivers hconversed.intact
      ((Connection.delivers_beginDrain o s.conn).trans (.register _ registered))
  · rw [heq]
    exact (h.handleEvent hconversed hdismissed s.phase events input s.store).delivers
      (hconversed.intact.handleEvent o s.phase events input s.store) (.register _ registered)

theorem concluded_run (o : NetworkOptions) (fd : Int) (store : Store Q)
    (events : List (SessionEvent Q)) : ((start fd store).run o events).conn.Concluded := by
  have hall : ((start fd store).run o events).conn.Conversed o ∧
      ((start fd store).run o events).conn.Dismissed ∧
      ((start fd store).run o events).conn.Concluded := by
    apply (machine o).run_invariant
      (I := fun s => s.conn.Conversed o ∧ s.conn.Dismissed ∧ s.conn.Concluded)
    · rintro s ⟨hconversed, hdismissed, h⟩ event -
      exact ⟨conversed_step hconversed event, dismissed_step hdismissed hconversed.intact event,
        concluded_step hconversed hdismissed h event⟩
    · exact ⟨Connection.conversed_accepted o fd, Connection.dismissed_of_not_any rfl,
        Connection.concluded_accepted fd⟩
  exact hall.2.2

end Session

namespace SubReactor

/-- The connections that have left were closed, or the event loop has failed. -/
def Departing (r : SubReactor Q) : Prop :=
  r.failed = true ∨ ∀ conn ∈ r.departed, conn.closed = true

theorem Departing.registerInterest {r : SubReactor Q} (h : r.Departing) (fd : Int)
    (refreshed : Connection × Option IoEvent) (modityOk : Bool) :
    Settled Departing (fun r => r.fail.Departing) (r.registerInterest fd refreshed modityOk) := by
  obtain ⟨poller, modified, heq⟩ := r.registerInterest_eq fd refreshed modityOk
  unfold Settled
  split
  · rw [heq]
    exact h
  · exact .inl rfl

theorem departing_invariant (o : NetworkOptions) :
    Invariant o (fun _ : IoInput Q => True) Departing where
  event r fd conn events input modityOk h _ _ :=
    Departing.registerInterest
      (r := { r with store := (conn.handleEvent o r.state events input r.store).2 }) h fd _ modityOk
  drain r fd conn modityOk h _ := h.registerInterest fd _ modityOk
  cleanup r removeOk h := by
    apply h.imp_right
    intro hclosed conn hmem
    obtain hmem | hmem := List.mem_append.mp hmem
    · exact hclosed conn hmem
    · obtain ⟨⟨fd, conn⟩, hentry, rfl⟩ := List.mem_map.mp hmem
      exact (List.mem_filter.mp hentry).2
  close r reason h := h
  add r fd addOk h := by
    have houtcome := r.addClientInLoop_outcome fd addOk
    generalize r.addClientInLoop fd addOk = after at houtcome ⊢
    cases houtcome with
    | refused => exact h
    | registered hnew hadd => exact h
  throws r _ := .inl rfl
  control r _ _ _ _ _ _ _ _ h := h
  start r addOk threadOk _ h := by
    have houtcome := r.start_outcome addOk threadOk
    generalize r.start addOk threadOk = after at houtcome ⊢
    cases houtcome with
    | refused hcreated => exact h
    | unregistered hcreated poller => exact h
    | running hcreated poller => exact h
    | threadless hcreated poller => exact h

end SubReactor

namespace TcpServer

/-- In every run of a server, a connection that has left has executed all requests of what it
has read, up to the first QUIT or a malformed header, and its client has been sent all their
responses, unless the connection was closed for an error, a limit, the end of input or by
force, or its event loop has failed. -/
theorem departures_complete (c : ServerSetup) (store : Store Q)
    (actions : List (TcpServer.Action Q)) (r : SubReactor Q)
    (h : r ∈ ((created c store).run c actions).subReactors) :
    ∀ conn ∈ r.departed,
      r.failed = true ∨ conn.Broken ∨ (conn.Fulfilled ∧ conn.Obeyed) := by
  intro conn hmem
  have hdeparting : ∀ r ∈ ((created c store).run c actions).subReactors,
      r.Tidy ∧ r.Idle ∧ r.Departing := by
    apply subReactors_run (I := fun r => r.Tidy ∧ r.Idle ∧ r.Departing) c
    · rintro r ⟨htidy, hidle, hr⟩ action
      refine ⟨htidy.step _ action, hidle.step htidy _ action, ?_⟩
      apply (SubReactor.departing_invariant c.networkOptions).step htidy hidle hr
      cases action with
      | iterate input => exact fun _ => trivial
      | _ => trivial
    · intro controlFd
      refine ⟨SubReactor.tidy_created _ controlFd store, fun _ => rfl, .inr ?_⟩
      exact fun conn hmem => by cases hmem
  have hconcluded : conn.Concluded := by
    apply connections_run c (Session.concluded_run c.networkOptions) store actions
    exact List.mem_flatMap.mpr ⟨r, h, List.mem_append_right _ hmem⟩
  obtain hfailed | hclosed := (hdeparting r h).2.2
  · exact .inl hfailed
  right
  obtain hbroken | hfulfilled := hconcluded.fulfilled (hclosed conn hmem)
  · exact .inl hbroken
  obtain hbroken | hobeyed := hconcluded.obeyed
  · exact .inl hbroken
  · exact .inr ⟨hfulfilled, hobeyed⟩

/-- The client with descriptor 7 asks PING and QUIT at once, and what follows is not read. -/
def askAndQuit : List (Action sortedExpirations) :=
  acceptClient ++
    [.subReactor 0 (SubReactor.calmly [⟨7, { read := true }⟩]
      (.bytes (frameOf (ascii "PING") ++ frameOf (ascii "QUIT"))) .wouldBlock 0),
    .subReactor 0 (SubReactor.calmly [⟨7, { write := true }⟩] .wouldBlock (.accepted 100) 0)]

/-- The client that has asked PING and QUIT has left, with both responses. -/
theorem departures_complete_quit :
    let s := (created oneSubReactor Store.empty).run oneSubReactor askAndQuit
    ∃ r ∈ s.subReactors, ∃ conn ∈ r.departed,
      conn.trace.executed.map Prod.snd = [ascii "+PONG", ascii "+BYE"] ∧
        conn.Fulfilled ∧ conn.Obeyed := by
  intro s
  obtain ⟨r, hr, hunfailed, conn, hconn, hcauses, hresponses⟩ :
      ∃ r ∈ s.subReactors, r.failed = false ∧ ∃ conn ∈ r.departed,
        conn.trace.causes = [.flushed] ∧
          conn.trace.executed.map Prod.snd = [ascii "+PONG", ascii "+BYE"] := by
    decide +kernel
  refine ⟨r, hr, conn, hconn, hresponses, ?_⟩
  obtain hfailed | ⟨cause, hmem, hcause⟩ | hcomplete :=
    departures_complete oneSubReactor Store.empty askAndQuit r hr conn hconn
  · rw [hunfailed] at hfailed
    cases hfailed
  · rw [hcauses] at hmem
    rw [List.mem_singleton.mp hmem] at hcause
    cases hcause
  · exact hcomplete

end TcpServer

end TinyKv
