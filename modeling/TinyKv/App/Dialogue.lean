import TinyKv.App.Client
import TinyKv.Net.ConnectionDialogue
import TinyKv.Net.HalfClose
import TinyKv.Net.PollerInterest

/-!
# A client and its connection

The client and the session that serves it are joined by the bytes in flight in each
direction. Either side may take its next step at any time, a call returns any number of the
bytes it could return, and either side may fail or leave. The client waits for one response
before it asks again, so that the responses it prints are those of its own lines.
-/

namespace TinyKv

open Foundation FrameCodec

variable {Q : ExpirationQueue}

/-- A client and the session that serves it, with the bytes in flight. -/
structure Link (Q : ExpirationQueue) where
  client : Client
  session : Session Q
  toServer : Bytes
  toClient : Bytes

/-- What can happen on a link. `recv` and `ready` are a `recv` of the client and a ready event
of the server. -/
inductive LinkEvent (Q : ExpirationQueue) where
  | getline (line : Option Bytes)
  | send (result : SendResult)
  | recv (answer : Socket.Answer)
  | ready (events : IoEvent) (recv : Syscall Socket.Answer) (send : Syscall SendResult)
      (ambient : Nat → Ambient Q) (modityOk : Bool)
  | beginDrain (modityOk : Bool)
  | forceClose (reason : ForcedClose)
  | abort

namespace Link

/-- A client that has connected, and the session of its connection. -/
def start (fd : Int) (store : Store Q) : Link Q := ⟨{}, .start fd store, [], []⟩

/-- The connection of the server. -/
abbrev conn (l : Link Q) : Connection := l.session.conn

/-- The socket of the server: the client's end is closed when the client has gone. -/
def serverSocket (l : Link Q) : Socket := ⟨l.toServer, l.client.gone⟩

/-- The socket of the client: the server's end is closed with the connection or at the end of
the event loop. -/
def clientSocket (l : Link Q) : Socket :=
  ⟨l.toClient, l.conn.closed || decide (l.session.phase = .stopped)⟩

/-- A step of the session takes the bytes it receives and adds those it sends. -/
def served (l : Link Q) (session : Session Q) : Link Q :=
  { l with
    session
    toServer := l.toServer.drop (session.conn.stream.length - l.conn.stream.length)
    toClient := l.toClient ++ session.conn.trace.sent.drop l.conn.trace.sent.length }

/-- One event. A `recv` of the client with nothing to return blocks. -/
def step (o : NetworkOptions) (l : Link Q) : LinkEvent Q → Link Q
  | .getline line =>
      if l.client.point = .prompt then { l with client := l.client.getline line } else l
  | .send result =>
      match l.client.point with
      | .sendAll line =>
          let (client, bytes) := l.client.sendAll line result
          { l with client, toServer := l.toServer ++ bytes }
      | .prompt | .recvFrame _ | .returned | .threw _ => l
  | .recv answer =>
      match l.client.point with
      | .recvFrame line =>
          match l.clientSocket.answer answer with
          | .bytes ready =>
              { l with
                client := l.client.recvFrame line (.bytes ready)
                toClient := l.toClient.drop (ready.take Client.recvSize).length }
          | .wouldBlock => l
          | .failed => { l with client := l.client.recvFrame line .failed }
      | .prompt | .sendAll _ | .returned | .threw _ => l
  | .ready events recv send ambient modityOk =>
      l.served (l.session.step o
        (.ready events ⟨recv.map l.serverSocket.answer, send, ambient⟩ modityOk))
  | .beginDrain modityOk => l.served (l.session.step o (.beginDrain modityOk))
  | .forceClose reason => l.served (l.session.step o (.forceClose reason))
  | .abort => l.served (l.session.step o .abort)

/-- The links under given options as a machine. -/
def machine (o : NetworkOptions) : Machine (Link Q) (LinkEvent Q) := ⟨step o⟩

/-- The link after a run of events. -/
def run (o : NetworkOptions) (l : Link Q) (events : List (LinkEvent Q)) : Link Q :=
  (machine o).run l events

end Link

/-! ### The client on its own -/

/-- Between two calls at most one line has been asked and not answered. -/
inductive Client.Orderly (c : Client) : Prop where
  | prompt (hpoint : c.point = .prompt) (hasked : c.asked = c.lines) (hunsent : c.unsent = [])
      (hbuffer : c.buffer = [])
  | sending (line : Bytes) (hpoint : c.point = .sendAll line)
      (hasked : c.asked = c.lines ++ [line]) (hbuffer : c.buffer = []) (hunsent : c.unsent ≠ [])
  | receiving (line : Bytes) (hpoint : c.point = .recvFrame line)
      (hasked : c.asked = c.lines ++ [line]) (hunsent : c.unsent = [])
      (hbuffer : frameParser.next c.buffer = .more)
  | ended (hgone : c.gone = true) (hbroken : c.point ≠ .threw (.codec .frameTooLarge))
      (hlines : c.lines <+: c.asked) (hasked : c.asked.length ≤ c.printed.length + 1)

namespace Client

theorem orderly_start : ({} : Client).Orderly := .prompt rfl rfl rfl rfl

/-- What holds of the lines at every point. -/
theorem Orderly.lines_asked {c : Client} (h : c.Orderly) :
    c.lines <+: c.asked ∧ c.asked.length ≤ c.printed.length + 1 ∧
      c.point ≠ .threw (.codec .frameTooLarge) := by
  have hlength : c.lines.length = c.printed.length := List.length_map ..
  cases h with
  | prompt hpoint hasked =>
      rw [hasked, hpoint]
      exact ⟨List.prefix_rfl, by omega, by simp⟩
  | sending line hpoint hasked =>
      rw [hasked, hpoint]
      exact ⟨List.prefix_append .., by simp, by simp⟩
  | receiving line hpoint hasked =>
      rw [hasked, hpoint]
      exact ⟨List.prefix_append .., by simp, by simp⟩
  | ended hgone hbroken hlines hasked => exact ⟨hlines, hasked, hbroken⟩

/-- An exception other than that for a frame keeps the lines. -/
theorem Orderly.threw {c : Client} (h : c.Orderly) {error : ClientError}
    (herror : error ≠ .codec .frameTooLarge) :
    ({ c with point := .threw error } : Client).Orderly :=
  .ended rfl (by simpa using herror) h.lines_asked.1 h.lines_asked.2.1

end Client

/-! ### What has been asked and what has been answered -/

/-- A prefix of a stream of frames: its items are the first payloads, and what is left is a
part of the others. -/
theorem Connection.Framed.drain {payloads : List Bytes} (h : Framed payloads) {stream : Bytes}
    (hstream : stream <+: payloads.flatMap frameOf) :
    (frameParser.drain stream).rejected = false ∧
      ∃ others, payloads = (frameParser.drain stream).items ++ others ∧
        (frameParser.drain stream).rest <+: others.flatMap frameOf :=
  frameParser.drain_of_prefix (fun h => (nextFrame_item h).1) next_nil h.next hstream

/-- An open connection is interested in reading or has something to write. -/
def Connection.Interested (conn : Connection) : Prop :=
  conn.closed = false → conn.desiredEvents ≠ .none

namespace Session

/-- A refresh of the interests closes a connection without any. -/
theorem interested_step {o : NetworkOptions} {s : Session Q} (h : s.conn.Interested)
    (event : SessionEvent Q) : (s.step o event).conn.Interested := by
  intro hopen
  rcases s.step_conn o event with
    hsame | ⟨reason, hclosed⟩ | ⟨registered, hdrain⟩ | ⟨events, input, registered, -, hready⟩
  · rw [hsame] at hopen ⊢
    exact h hopen
  · rw [hclosed] at hopen
    cases hopen
  · rw [hdrain] at hopen ⊢
    exact ((Connection.refreshed_beginDrain o s.conn).opened hopen).2.1
  · rw [hready] at hopen ⊢
    exact ((Connection.refreshed_handleEvent o s.phase events input s.store s.conn).opened
      hopen).2.1

end Session

namespace Link

/-- The record of the client and the trace of the connection agree: what has been asked is
what has been received, is in flight or is still to be sent, and what has been sent back is
what has been printed, is in the buffer or is in flight. -/
structure Agreed (o : NetworkOptions) (l : Link Q) : Prop where
  orderly : l.client.Orderly
  asked : Connection.Framed l.client.asked
  responses : Connection.Framed l.client.responses
  conversed : l.conn.Conversed o
  interested : l.conn.Interested
  outgoing : l.conn.stream ++ l.toServer ++ l.client.unsent = l.client.asked.flatMap frameOf
  incoming : l.client.responses.flatMap frameOf ++ (l.client.buffer ++ l.toClient) =
    l.conn.trace.sent
  kept : l.client.dropped = []

theorem agreed_start (o : NetworkOptions) (fd : Int) (store : Store Q) :
    (start fd store).Agreed o where
  orderly := Client.orderly_start
  asked := by simp [start, Connection.Framed]
  responses := by simp [start, Connection.Framed]
  conversed := Connection.conversed_accepted o fd
  interested _ := by simp [start, Session.start, Connection.accepted, Connection.desiredEvents,
    IoEvent.none]
  outgoing := rfl
  incoming := rfl
  kept := rfl

/-! ### The server -/

theorem arrived_prefix (l : Link Q) (recv : Syscall Socket.Answer) (send : Syscall SendResult)
    (ambient : Nat → Ambient Q) :
    IoInput.arrived ⟨recv.map l.serverSocket.answer, send, ambient⟩ <+: l.toServer := by
  rw [IoInput.arrived, Syscall.result_map]
  cases hanswer : l.serverSocket.answer recv.result with
  | bytes ready => exact Socket.answer_prefix hanswer
  | wouldBlock => exact List.nil_prefix
  | failed => exact List.nil_prefix

/-- A step of the session. -/
theorem Agreed.served {o : NetworkOptions} {l : Link Q} (h : l.Agreed o) {event : SessionEvent Q}
    (harrived : event.arrived <+: l.toServer) : (l.served (l.session.step o event)).Agreed o := by
  obtain ⟨⟨bytes, hstream, hbytes⟩, hsent⟩ := Session.moves_step o l.session event
  obtain ⟨more, hsent⟩ := hsent
  obtain ⟨rest, hrest⟩ := hbytes.trans harrived
  refine ⟨h.orderly, h.asked, h.responses, Session.conversed_step h.conversed event,
    Session.interested_step h.interested event, ?_, ?_, h.kept⟩
  · have hdrop : l.toServer.drop
        ((l.session.step o event).conn.stream.length - l.conn.stream.length) = rest := by
      rw [hstream, ← hrest, List.length_append, Nat.add_sub_cancel_left, List.drop_left]
    have houtgoing := h.outgoing
    change (l.session.step o event).conn.stream ++ l.toServer.drop _ ++ _ = _
    rw [hdrop, hstream, List.append_assoc l.conn.stream bytes rest, hrest]
    exact houtgoing
  · change l.client.responses.flatMap frameOf ++ (l.client.buffer ++
      (l.toClient ++ (l.session.step o event).conn.trace.sent.drop _)) =
        (l.session.step o event).conn.trace.sent
    rw [← hsent, List.drop_left, ← List.append_assoc l.client.buffer, ← List.append_assoc]
    exact congrArg (· ++ more) h.incoming

/-! ### What the agreement says -/

variable {o : NetworkOptions} {l : Link Q}

theorem Agreed.stream_prefix (h : l.Agreed o) :
    l.conn.stream <+: l.client.asked.flatMap frameOf := by
  rw [← h.outgoing, List.append_assoc]
  exact List.prefix_append ..

/-- The lines of the stream are accepted, and the executed payloads are the first of them. -/
theorem Agreed.executed_asked (h : l.Agreed o) :
    (frameParser.drain l.conn.stream).rejected = false ∧
      l.conn.executedPayloads <+: l.client.asked := by
  obtain ⟨haccepted, others, hasked, -⟩ := h.asked.drain h.stream_prefix
  refine ⟨haccepted, h.conversed.executed.trans ?_⟩
  rw [hasked]
  exact List.prefix_append ..

/-- The line that is refused is the first that is not executed. Its frame does not fit the
read buffer. -/
theorem Agreed.refused (h : l.Agreed o) (ho : o.Accepted)
    (hexecuted : l.conn.executedPayloads = (frameParser.drain l.conn.stream).items)
    (hpart : o.maxReadBufferBytes ≤ (frameParser.drain l.conn.stream).rest.length) :
    ∃ line others, l.client.asked = l.conn.executedPayloads ++ line :: others ∧
      o.maxReadBufferBytes < (frameOf line).length := by
  obtain ⟨haccepted, others, hasked, hrest⟩ := h.asked.drain h.stream_prefix
  rw [← hexecuted] at hasked
  cases others with
  | nil =>
      have hread := ho.read
      rw [List.prefix_nil.mp hrest, List.length_nil] at hpart
      omega
  | cons line others =>
      have hnext := frameParser.next_drain_rest l.conn.stream
      rw [haccepted] at hnext
      have hfits : line.length ≤ maxFrameSize := by
        apply h.asked
        rw [hasked]
        simp
      have hlt := Connection.length_lt_of_waiting hnext hfits hrest
      rw [← length_frameOf] at hlt
      exact ⟨line, others, hasked, by omega⟩

/-- No more responses are queued than lines have been asked. -/
theorem Agreed.queued_length (h : l.Agreed o) (ho : o.Accepted) :
    l.conn.trace.queued.length ≤ l.client.asked.length := by
  have hexecuted := h.executed_asked.2.length_le
  have hlength : l.conn.executedPayloads.length = l.conn.trace.executed.length :=
    List.length_map ..
  cases h.conversed.replies with
  | answers hqueued =>
      have hle := hqueued.length_le
      rw [List.length_map] at hle
      omega
  | refusal hstopped hpayloads hqueued hpart =>
      obtain ⟨line, others, hasked, -⟩ := h.refused ho hpayloads hpart
      rw [hqueued, hasked, List.length_append, List.length_map, List.length_singleton,
        List.length_append, List.length_cons]
      omega
  | malformed hrejected =>
      rw [h.executed_asked.1] at hrejected
      cases hrejected

/-- What the client has received and will receive is read as the queued responses: those it
has printed, those complete in its buffer, and others. -/
theorem Agreed.received (h : l.Agreed o) {received : Bytes} (hreceived : received <+: l.toClient) :
    (frameParser.drain (l.client.buffer ++ received)).rejected = false ∧
      ∃ others, l.conn.trace.queued =
          l.client.responses ++ (frameParser.drain (l.client.buffer ++ received)).items ++ others ∧
        (frameParser.drain (l.client.buffer ++ received)).rest <+: others.flatMap frameOf := by
  have hprefix : l.client.responses.flatMap frameOf ++ (l.client.buffer ++ received) <+:
      l.conn.trace.queued.flatMap frameOf := by
    refine List.IsPrefix.trans ?_ h.conversed.intact.sent
    rw [← h.incoming]
    apply (List.prefix_append_right_inj _).mpr
    exact (List.prefix_append_right_inj _).mpr hreceived
  have hfits : Connection.Framed l.conn.trace.queued := h.conversed.intact.fits
  obtain ⟨haccepted, others, hqueued, hrest⟩ := hfits.drain hprefix
  rw [frameParser.drain_encoded h.responses.next] at haccepted hqueued hrest
  exact ⟨haccepted, others, hqueued, hrest⟩

/-- While the client waits, at most one response completes, with nothing behind it. -/
theorem Agreed.waiting (h : l.Agreed o) (ho : o.Accepted) {line : Bytes}
    (hpoint : l.client.point = .recvFrame line) {received : Bytes}
    (hreceived : received <+: l.toClient) :
    (frameParser.drain (l.client.buffer ++ received)).items = [] ∨
      ∃ response, frameParser.drain (l.client.buffer ++ received) = ⟨[response], [], false⟩ := by
  obtain ⟨haccepted, others, hqueued, hrest⟩ := h.received hreceived
  have hasked : l.client.asked.length = l.client.printed.length + 1 := by
    cases h.orderly with
    | receiving line hpoint hasked => simp [hasked]
    | prompt hprompt => rw [hpoint] at hprompt; cases hprompt
    | sending line hsending => rw [hpoint] at hsending; cases hsending
    | ended hgone => simp [Client.gone, hpoint] at hgone
  have hlength := h.queued_length ho
  rw [hqueued, List.length_append, List.length_append, List.length_map] at hlength
  generalize frameParser.drain (l.client.buffer ++ received) = drained at *
  obtain ⟨items, rest, rejected⟩ := drained
  match items with
  | [] => exact .inl rfl
  | response :: more =>
      right
      have hmore : more = [] := List.length_eq_zero_iff.mp (by simp at hlength; omega)
      have hothers : others = [] := List.length_eq_zero_iff.mp (by simp at hlength; omega)
      rw [hothers, List.flatMap_nil, List.prefix_nil] at hrest
      simp only at haccepted hrest
      exact ⟨response, by rw [hmore, hrest, haccepted]⟩

/-! ### The client -/

/-- A step of the client that sends and receives nothing. -/
theorem Agreed.client_threw (h : l.Agreed o) {error : ClientError}
    (herror : error ≠ .codec .frameTooLarge) :
    { l with client := { l.client with point := .threw error } }.Agreed o :=
  ⟨h.orderly.threw herror, h.asked, h.responses, h.conversed, h.interested, h.outgoing,
    h.incoming, h.kept⟩

theorem Agreed.getline (h : l.Agreed o) (hpoint : l.client.point = .prompt)
    (input : Option Bytes) : { l with client := l.client.getline input }.Agreed o := by
  obtain ⟨hasked, hunsent, hbuffer⟩ : l.client.asked = l.client.lines ∧ l.client.unsent = [] ∧
      l.client.buffer = [] := by
    cases h.orderly with
    | prompt hprompt hasked hunsent hbuffer => exact ⟨hasked, hunsent, hbuffer⟩
    | sending line hsending => rw [hpoint] at hsending; cases hsending
    | receiving line hreceiving => rw [hpoint] at hreceiving; cases hreceiving
    | ended hgone => simp [Client.gone, hpoint] at hgone
  have houtcome := l.client.getline_outcome input
  generalize l.client.getline input = client at houtcome ⊢
  cases houtcome with
  | ended =>
      refine ⟨?_, h.asked, h.responses, h.conversed, h.interested, h.outgoing, h.incoming, h.kept⟩
      exact .ended rfl (by simp) h.orderly.lines_asked.1 h.orderly.lines_asked.2.1
  | empty => exact h
  | refused e herror =>
      apply h.client_threw
      rintro ⟨⟩
      rcases herror with herror | herror <;> cases herror
  | encoded line hfits =>
      refine ⟨.sending line rfl (congrArg (· ++ [line]) hasked) hbuffer ?_, ?_, h.responses,
        h.conversed, h.interested, ?_, h.incoming, h.kept⟩
      · simp [frameOf, htonl]
      · intro payload hmem
        obtain hmem | hmem := List.mem_append.mp hmem
        · exact h.asked payload hmem
        · rw [List.mem_singleton.mp hmem]
          exact hfits
      · have houtgoing := h.outgoing
        rw [hunsent, List.append_nil] at houtgoing
        simp only [List.flatMap_append, List.flatMap_cons, List.flatMap_nil, List.append_nil,
          houtgoing]

theorem Agreed.sendAll (h : l.Agreed o) {line : Bytes} (hpoint : l.client.point = .sendAll line)
    (result : SendResult) :
    { l with
      client := (l.client.sendAll line result).1
      toServer := l.toServer ++ (l.client.sendAll line result).2 }.Agreed o := by
  obtain ⟨hasked, hbuffer⟩ : l.client.asked = l.client.lines ++ [line] ∧ l.client.buffer = [] := by
    cases h.orderly with
    | sending line' hsending hasked hbuffer =>
        rw [hpoint] at hsending
        cases hsending
        exact ⟨hasked, hbuffer⟩
    | prompt hprompt => rw [hpoint] at hprompt; cases hprompt
    | receiving line hreceiving => rw [hpoint] at hreceiving; cases hreceiving
    | ended hgone => simp [Client.gone, hpoint] at hgone
  have houtcome := l.client.sendAll_outcome line result
  have houtgoing := h.outgoing
  generalize l.client.sendAll line result = sent at houtcome ⊢
  cases houtcome with
  | failed =>
      rw [List.append_nil]
      exact h.client_threw (by simp)
  | part bytes more hunsent hbytes hmore =>
      refine ⟨.sending line hpoint hasked hbuffer hmore, h.asked, h.responses, h.conversed,
        h.interested, ?_, h.incoming, h.kept⟩
      rw [hunsent] at houtgoing
      simpa only [List.append_assoc] using houtgoing
  | all =>
      refine ⟨.receiving line rfl hasked rfl ?_, h.asked, h.responses, h.conversed, h.interested,
        ?_, h.incoming, h.kept⟩
      · rw [hbuffer]
        exact next_nil
      · simpa only [List.append_assoc, List.append_nil] using houtgoing

/-- One `recv` of the client. What it hands out is in flight; nothing more is printed than
the one response that completes. -/
theorem Agreed.recvFrame (h : l.Agreed o) (ho : o.Accepted) {line ready : Bytes}
    (hpoint : l.client.point = .recvFrame line) (hready : ready <+: l.toClient) :
    { l with
      client := l.client.recvFrame line (.bytes ready)
      toClient := l.toClient.drop (ready.take Client.recvSize).length }.Agreed o := by
  obtain ⟨hasked, hunsent, hmore⟩ : l.client.asked = l.client.lines ++ [line] ∧
      l.client.unsent = [] ∧ frameParser.next l.client.buffer = .more := by
    cases h.orderly with
    | receiving line' hreceiving hasked hunsent hbuffer =>
        rw [hpoint] at hreceiving
        cases hreceiving
        exact ⟨hasked, hunsent, hbuffer⟩
    | prompt hprompt => rw [hpoint] at hprompt; cases hprompt
    | sending line hsending => rw [hpoint] at hsending; cases hsending
    | ended hgone => simp [Client.gone, hpoint] at hgone
  have hreceived : ready.take Client.recvSize <+: l.toClient :=
    (List.take_prefix ..).trans hready
  by_cases hnil : ready.take Client.recvSize = []
  · -- the end of the stream
    rw [hnil, Client.recvFrame, if_pos hnil]
    exact h.client_threw (by simp)
  obtain ⟨haccepted, -⟩ := h.received hreceived
  have houtcome := Client.recvFrame_outcome line hnil haccepted
  have hwaiting := h.waiting ho hpoint hreceived
  have hincoming := h.incoming
  obtain ⟨rest, hrest⟩ := hreceived
  have hdrop : l.toClient.drop (ready.take Client.recvSize).length = rest := by
    rw [← hrest, List.drop_left]
  rw [hdrop]
  generalize l.client.recvFrame line (.bytes ready) = client at houtcome ⊢
  cases houtcome with
  | incomplete hitems =>
      refine ⟨.receiving line hpoint hasked hunsent ?_, h.asked, h.responses, h.conversed,
        h.interested, h.outgoing, ?_, h.kept⟩
      · have hrebuild := drain_rebuild (l.client.buffer ++ ready.take Client.recvSize)
        rw [hitems, List.flatMap_nil, List.nil_append] at hrebuild
        have hnext := frameParser.next_drain_rest (l.client.buffer ++ ready.take Client.recvSize)
        rw [← hrebuild, haccepted] at hnext
        exact hnext
      · rw [← hincoming, ← hrest]
        simp only [List.append_assoc]
  | complete response others quit hitems =>
      obtain hnone | ⟨_, hdrain⟩ := hwaiting
      · rw [hnone] at hitems
        cases hitems
      rw [hdrain] at hitems
      cases hitems
      have hrebuild := drain_rebuild (l.client.buffer ++ ready.take Client.recvSize)
      rw [hdrain] at hrebuild
      refine ⟨?_, h.asked, ?_, h.conversed, h.interested, h.outgoing, ?_, ?_⟩
      · have hlines : l.client.asked = (l.client.printed ++ [(line, response)]).map Prod.fst := by
          rw [hasked, List.map_append]
          rfl
        cases quit with
        | true =>
            refine .ended rfl (by simp) ?_ ?_
            · rw [hlines]
            · rw [hlines]
              simp
        | false => exact .prompt rfl hlines hunsent rfl
      · intro payload hmem
        rw [Client.responses, List.map_append] at hmem
        obtain hmem | hmem := List.mem_append.mp hmem
        · exact h.responses payload hmem
        · have hsizes := drain_items_le (l.client.buffer ++ ready.take Client.recvSize)
          rw [hdrain] at hsizes
          exact hsizes payload hmem
      · rw [← hincoming, ← hrest]
        simp only [Client.responses, List.map_append, List.flatMap_append, List.nil_append,
          List.append_assoc]
        rw [← List.append_assoc l.client.buffer, hrebuild]
        simp
      · rw [hdrain]
        simp [h.kept]

theorem agreed_step (ho : o.Accepted) (h : l.Agreed o) (event : LinkEvent Q) :
    (l.step o event).Agreed o := by
  cases event with
  | getline line =>
      rw [step]
      split
      · next hpoint => exact h.getline hpoint line
      · exact h
  | send result =>
      rw [step]
      split
      · next line hpoint => exact h.sendAll hpoint result
      all_goals exact h
  | recv answer =>
      rw [step]
      split
      · next line hpoint =>
        split
        · next ready hanswer => exact h.recvFrame ho hpoint (Socket.answer_prefix hanswer)
        · exact h
        · exact h.client_threw (by simp)
      all_goals exact h
  | ready events recv send ambient modityOk =>
      exact h.served (l.arrived_prefix recv send ambient)
  | beginDrain modityOk => exact h.served List.nil_prefix
  | forceClose reason => exact h.served List.nil_prefix
  | abort => exact h.served List.nil_prefix

theorem agreed_run (ho : o.Accepted) (fd : Int) (store : Store Q) (events : List (LinkEvent Q)) :
    ((start fd store).run o events).Agreed o :=
  (machine o).run_invariant (I := fun l => l.Agreed o) (fun _ hl event _ => agreed_step ho hl event)
    (agreed_start o fd store)

/-! ### The dialogue -/

/-- A list of pairs is a prefix when its columns are. -/
theorem prefix_of_columns {α β : Type*} {xs ys : List (α × β)}
    (hfst : xs.map Prod.fst <+: ys.map Prod.fst) (hsnd : xs.map Prod.snd <+: ys.map Prod.snd) :
    xs <+: ys := by
  induction xs generalizing ys with
  | nil => exact List.nil_prefix
  | cons x xs ih =>
      cases ys with
      | nil => cases List.prefix_nil.mp hfst
      | cons y ys =>
          rw [List.map_cons, List.map_cons, List.cons_prefix_cons] at hfst hsnd
          rw [List.cons_prefix_cons]
          exact ⟨Prod.ext hfst.1 hsnd.1, ih hfst.2 hsnd.2⟩

theorem Agreed.responses_queued (h : l.Agreed o) : l.client.responses <+: l.conn.trace.queued := by
  obtain ⟨-, others, hqueued, -⟩ := h.received List.nil_prefix
  rw [hqueued, List.append_assoc]
  exact List.prefix_append ..

/-- As long as no more is printed than has been executed, it is what has been executed. -/
theorem Agreed.printed_prefix (h : l.Agreed o)
    (hresponses : l.client.responses <+: l.conn.trace.executed.map Prod.snd) :
    l.client.printed <+: l.conn.trace.executed := by
  apply prefix_of_columns _ hresponses
  apply List.prefix_of_prefix_length_le h.orderly.lines_asked.1 h.executed_asked.2
  have hlength := hresponses.length_le
  simpa [Connection.executedPayloads] using hlength

/-- What is printed is what has been executed, but for a line that has been refused. -/
theorem Agreed.printed (h : l.Agreed o) (ho : o.Accepted) :
    l.client.printed <+: l.conn.trace.executed ∨
      ∃ line, l.client.printed = l.conn.trace.executed ++ [(line, requestBufferTooLarge)] ∧
        o.maxReadBufferBytes < (frameOf line).length := by
  have hresponses := h.responses_queued
  cases h.conversed.replies with
  | answers hqueued => exact .inl (h.printed_prefix (hresponses.trans hqueued))
  | malformed hrejected =>
      rw [h.executed_asked.1] at hrejected
      cases hrejected
  | refusal hstopped hexecuted hqueued hpart =>
      rw [hqueued] at hresponses
      obtain hall | hsome := List.prefix_concat_iff.mp hresponses
      swap
      · exact .inl (h.printed_prefix hsome)
      obtain ⟨line, others, hasked, hlarge⟩ := h.refused ho hexecuted hpart
      -- the last line printed is the first that has not been executed
      refine .inr ⟨line, ?_, hlarge⟩
      have hlines : l.client.lines = l.conn.executedPayloads ++ [line] := by
        have hlength := congrArg List.length hall
        simp only [List.length_map, List.length_append, List.length_singleton] at hlength
        have hprefix : l.conn.executedPayloads ++ [line] <+: l.client.asked := by
          rw [hasked]
          exact ⟨others, by simp⟩
        apply (List.prefix_of_prefix_length_le h.orderly.lines_asked.1 hprefix _).eq_of_length
        · simp [Connection.executedPayloads, hlength]
        · simp [Connection.executedPayloads, hlength]
      have hcolumns : l.client.printed <+:
          l.conn.trace.executed ++ [(line, requestBufferTooLarge)] := by
        apply prefix_of_columns
        · rw [List.map_append]
          exact hlines ▸ List.prefix_rfl
        · rw [List.map_append]
          exact hall ▸ List.prefix_rfl
      apply hcolumns.eq_of_length
      have hlength := congrArg List.length hall
      simpa using hlength

/-- While a client waits on an open connection, there is something for one of the two to do:
bytes are in flight, or the server has a response to send. -/
theorem Agreed.lively (h : l.Agreed o) {line : Bytes} (hpoint : l.client.point = .recvFrame line)
    (hopen : l.conn.closed = false) :
    l.toServer ≠ [] ∨ l.conn.pending ≠ [] ∨ l.toClient ≠ [] := by
  by_contra hidle
  simp only [not_or, not_not] at hidle
  obtain ⟨hserver, hpending, hclient⟩ := hidle
  obtain ⟨hasked, hunsent, hbuffer⟩ : l.client.asked = l.client.lines ++ [line] ∧
      l.client.unsent = [] ∧ frameParser.next l.client.buffer = .more := by
    cases h.orderly with
    | receiving line' hreceiving hasked hunsent hbuffer =>
        rw [hpoint] at hreceiving
        cases hreceiving
        exact ⟨hasked, hunsent, hbuffer⟩
    | prompt hprompt => rw [hpoint] at hprompt; cases hprompt
    | sending line hsending => rw [hpoint] at hsending; cases hsending
    | ended hgone => simp [Client.gone, hpoint] at hgone
  -- with nothing to write the connection reads, and has executed all that has been asked
  have hserving : l.conn.Serving := by
    refine ⟨hopen, ?_⟩
    by_contra hclose
    rw [Bool.not_eq_false] at hclose
    apply h.interested hopen
    have hempty : l.conn.writeBuffer.isEmpty = true := (OutputBuffer.isEmpty_iff _).mpr hpending
    simp [Connection.desiredEvents, hopen, hclose, hempty, IoEvent.none]
  obtain ⟨-, -, hexecuted⟩ := h.conversed.parsed hserving
  have houtgoing := h.outgoing
  rw [hserver, hunsent, List.append_nil, List.append_nil] at houtgoing
  have hdrain := frameParser.drain_encoded h.asked.next []
  rw [List.append_nil, ← houtgoing, frameParser.drain_more next_nil, List.append_nil] at hdrain
  rw [hdrain] at hexecuted
  have hqueued := congrArg List.length (h.conversed.intact.queued_eq hserving)
  have hcount := congrArg List.length hexecuted
  -- all responses have been sent and received, which is one more than have been printed
  have hsent := h.conversed.intact.stream hopen
  rw [hpending, List.append_nil, ← h.incoming, hclient, List.append_nil] at hsent
  have hfits : Connection.Framed l.conn.trace.queued := h.conversed.intact.fits
  have hresponses := frameParser.drain_encoded h.responses.next l.client.buffer
  have hall := frameParser.drain_encoded hfits.next []
  rw [List.append_nil, ← hsent, hresponses, frameParser.drain_more hbuffer,
    frameParser.drain_more next_nil] at hall
  have hitems := congrArg (fun drained => drained.items.length) hall
  simp only [List.append_nil, List.length_map] at hitems
  simp only [Connection.executedPayloads, List.length_map] at hcount hqueued
  rw [hasked, List.length_append, List.length_map, List.length_singleton] at hcount
  omega

/-- In every run of a client with its connection the printed responses are those computed for
its lines, in order, but for the refusal of a line that the server does not read; no
response is dropped or cut, no line is asked before the one before it is answered, and a
client that waits on an open connection is never left without anything on its way. -/
theorem dialogue {o : NetworkOptions} (ho : o.Accepted) (fd : Int) (store : Store Q)
    (events : List (LinkEvent Q)) :
    let l := (start fd store).run o events
    (l.client.printed <+: l.conn.trace.executed ∨
      ∃ line, l.client.printed = l.conn.trace.executed ++ [(line, requestBufferTooLarge)] ∧
        o.maxReadBufferBytes < (frameOf line).length) ∧
    l.conn.executedPayloads <+: l.client.asked ∧
    l.client.lines <+: l.client.asked ∧
    l.client.asked.length ≤ l.client.printed.length + 1 ∧
    l.client.dropped = [] ∧
    l.client.point ≠ .threw (.codec .frameTooLarge) ∧
    ∀ line, l.client.point = .recvFrame line → l.conn.closed = false →
      l.toServer ≠ [] ∨ l.conn.pending ≠ [] ∨ l.toClient ≠ [] := by
  intro l
  have h : l.Agreed o := agreed_run ho fd store events
  obtain ⟨hlines, hasked, hbroken⟩ := h.orderly.lines_asked
  exact ⟨h.printed ho, h.executed_asked.2, hlines, hasked, h.kept, hbroken,
    fun _ hpoint hopen => h.lively hpoint hopen⟩

/-- A PING, taken in two reads of the server and two of the client. -/
def askPing : List (LinkEvent sortedExpirations) :=
  [.getline (some (ascii "PING")), .send (.accepted 8),
    .ready { read := true } (.returned (.upTo 4)) (.returned .wouldBlock) Session.quiet true,
    .ready { read := true } (.returned (.upTo 7)) (.returned .wouldBlock) Session.quiet true,
    .ready { write := true } (.returned .failed) (.returned (.accepted 9)) Session.quiet true,
    .recv (.upTo 2), .recv (.upTo 5)]

theorem dialogue_ping :
    let l := (start 5 Store.empty).run {} askPing
    l.client.printed = [(ascii "PING", ascii "+PONG")] ∧
      (l.client.printed <+: l.conn.trace.executed ∨
        ∃ line, l.client.printed = l.conn.trace.executed ++ [(line, requestBufferTooLarge)] ∧
          1048580 < (frameOf line).length) :=
  ⟨rfl, (dialogue (NetworkOptions.check_ok_iff.mp rfl) 5 Store.empty askPing).1⟩

end Link

end TinyKv
