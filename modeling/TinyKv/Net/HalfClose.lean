import TinyKv.Config.ConfigLoader
import TinyKv.Net.Segmentation

/-!
# Half-closed connections

A client sends its requests and shuts down its side. What it has sent waits in the socket
until `recv` hands it out. The `epoll` backend asks for `EPOLLRDHUP`, which the kernel
reports while bytes are still unread; the Hangup branch then ends the reading.
-/

namespace TinyKv

open Foundation FrameCodec

variable {Q : ExpirationQueue}

/-! ### The socket -/

/-- The receiving side of a socket: the bytes not yet read, and whether the FIN has been
queued behind them. -/
structure Socket where
  unread : Bytes := []
  finQueued : Bool := false
deriving DecidableEq

namespace Socket

/-- What the kernel reports of a connection whose peer has at most half-closed it: errors
whether asked for or not, the rest as far as it was asked for. -/
def report (socket : Socket) (requested : NativeEvents) (writable error : Bool) :
    NativeEvents where
  readable := requested.readable && (!socket.unread.isEmpty || socket.finQueued)
  writable := requested.writable && writable
  error := error
  peerClosed := requested.peerClosed && socket.finQueued

/-- What decides the answer of one call of `recv`: how many of the unread bytes after the
first one it hands out, or its failure. -/
inductive Answer where
  | upTo (more : Nat)
  | failed

/-- The answer of `recv`: some of the unread bytes; 0 when they are used up and the FIN
has been queued; else it would block. -/
def answer (socket : Socket) : Answer → RecvResult
  | .failed => .failed
  | .upTo more =>
      if socket.unread = [] then
        if socket.finQueued then .bytes [] else .wouldBlock
      else
        .bytes (socket.unread.take (more + 1))

/-- `recv` returns 0 only at the end of the socket's bytes. -/
theorem answer_nil {socket : Socket} {a : Answer} {ready : Bytes} {n : Nat}
    (h : socket.answer a = .bytes ready) (hn : 0 < n) (hnil : ready.take n = []) :
    socket.unread = [] ∧ socket.finQueued = true := by
  cases a with
  | failed => cases h
  | upTo more =>
      simp only [Socket.answer] at h
      split at h
      · next hunread =>
        split at h
        · next hfin => exact ⟨hunread, hfin⟩
        · cases h
      · next hunread =>
        cases h
        rw [List.take_eq_nil_iff, List.take_eq_nil_iff] at hnil
        simp [hunread] at hnil
        omega

theorem answer_prefix {socket : Socket} {a : Answer} {ready : Bytes}
    (h : socket.answer a = .bytes ready) : ready <+: socket.unread := by
  cases a with
  | failed => cases h
  | upTo more =>
      simp only [Socket.answer] at h
      split at h
      · split at h
        · cases h
          exact List.nil_prefix
        · cases h
      · cases h
        exact List.take_prefix ..

end Socket

/-- The same answer, however often the call was interrupted. -/
def Syscall.map {α β : Type} (f : α → β) : Syscall α → Syscall β
  | .interrupted again => .interrupted (again.map f)
  | .returned result => .returned (f result)

theorem Syscall.result_map {α β : Type} (f : α → β) (call : Syscall α) :
    (call.map f).result = f call.result := by
  induction call with
  | interrupted again ih => exact ih
  | returned result => rfl

/-! ### The connection with its socket -/

/-- A session with its socket, the bytes its client has sent, and the events the last
`Wait` has reported and the event loop has not yet handled. -/
structure HalfClose (Q : ExpirationQueue) where
  session : Session Q
  socket : Socket := {}
  sent : Bytes := []
  reported : Option IoEvent := none

/-- What the client does, and what the reactor does with the connection. -/
inductive HalfCloseEvent (Q : ExpirationQueue) where
  | send (bytes : Bytes)
  | shutdown
  | wait (writable error : Bool)
  | handle (recv : Syscall Socket.Answer) (send : Syscall SendResult) (ambient : Nat → Ambient Q)
      (modityOk : Bool)
  | beginDrain (modityOk : Bool)
  | forceClose (reason : ForcedClose)
  | abort

namespace HalfClose

/-- An accepted connection of which nothing has been received. -/
def start (fd : Int) (store : Store Q) : HalfClose Q := { session := .start fd store }

/-- The connection. -/
abbrev conn (s : HalfClose Q) : Connection := s.session.conn

/-- The socket after `recv` has handed out what the connection has received since. -/
def consumed (s : HalfClose Q) (session : Session Q) : HalfClose Q :=
  { s with
    session
    socket.unread := s.socket.unread.drop (session.conn.stream.length - s.conn.stream.length)
    reported := none }

/-- One event. A closed connection is no longer known to the poller. -/
def step (o : NetworkOptions) (backend : PollerBackend) (s : HalfClose Q) :
    HalfCloseEvent Q → HalfClose Q
  | .send bytes =>
      if s.socket.finQueued then
        s
      else
        { s with socket.unread := s.socket.unread ++ bytes, sent := s.sent ++ bytes }
  | .shutdown => { s with socket.finQueued := true }
  | .wait writable error =>
      let native :=
        s.socket.report (backend.toNativeEvents s.conn.registeredEvents) writable error
      { s with
        reported :=
          if s.conn.closed || native == {} then none else some (backend.fromNativeEvents native) }
  | .handle recv send ambient modityOk =>
      match s.reported with
      | none => s
      | some events =>
          if s.conn.closed then
            { s with reported := none }
          else
            s.consumed (s.session.step o
              (.ready events ⟨recv.map s.socket.answer, send, ambient⟩ modityOk))
  | .beginDrain modityOk => { s with session := s.session.step o (.beginDrain modityOk) }
  | .forceClose reason => { s with session := s.session.step o (.forceClose reason) }
  | .abort => { s with session := s.session.step o .abort }

/-- The half-closed connections under given options and with a given backend. -/
def machine (o : NetworkOptions) (backend : PollerBackend) :
    Machine (HalfClose Q) (HalfCloseEvent Q) := ⟨step o backend⟩

/-- The connection after a run of events. -/
def run (o : NetworkOptions) (backend : PollerBackend) (s : HalfClose Q)
    (events : List (HalfCloseEvent Q)) : HalfClose Q :=
  (machine o backend).run s events

/-- The read of an event takes everything that is unread: the connection reads, and one
`recv` into the free part of the read buffer hands it all out. -/
structure TakesAll (o : NetworkOptions) (s : HalfClose Q) (events : IoEvent)
    (recv : Syscall Socket.Answer) : Prop where
  running : s.session.phase = .running
  read : events.read = true
  reading : s.conn.Reading
  room : s.conn.readBuffer.length < o.maxReadBufferBytes
  all : ∃ more, recv.result = .upTo more ∧ s.socket.unread.length ≤ more + 1 ∧
    s.socket.unread.length ≤ s.conn.readSize o

/-- The condition on the steps of a run: when a Hangup is handled, nothing is unread, or
the read of the same event takes everything. -/
def HangupDrained (o : NetworkOptions) (s : HalfClose Q) : HalfCloseEvent Q → Prop
  | .handle recv _ _ _ =>
      ∀ events, s.reported = some events → events.hangup = true →
        s.socket.unread = [] ∨ s.TakesAll o events recv
  | _ => True

end HalfClose

/-! ### Hangups come after the FIN -/

/-- A Hangup is reported only when the FIN has been queued, and never by `poll`. -/
theorem Socket.hangup_reported {socket : Socket} {backend : PollerBackend} {interests : IoEvent}
    {writable error : Bool}
    (h : (backend.fromNativeEvents
      (socket.report (backend.toNativeEvents interests) writable error)).hangup = true) :
    backend = .epoll ∧ socket.finQueued = true := by
  cases backend with
  | poll => cases h
  | epoll => exact ⟨rfl, h⟩

namespace Connection

theorem hungUp_handleClientWrite (o : NetworkOptions) (input : IoInput Q) (conn : Connection) :
    (conn.handleClientWrite o input).trace.hungUp = conn.trace.hungUp := by
  unfold handleClientWrite
  split
  · rfl
  split
  · simp only
    split
    · simp [markClosed]
    · rw [updateReadBackPressure_trace]
  simp only
  cases input.send.result with
  | accepted bytes =>
      simp only
      split
      · unfold sendBytes
        simp only
        split
        · simp [markClosed]
        · rw [updateReadBackPressure_trace]
      · rfl
  | wouldBlock => rfl
  | failed => rfl

theorem hungUp_refreshInterest (o : NetworkOptions) (conn : Connection) :
    (conn.refreshInterest o).1.trace.hungUp = conn.trace.hungUp := by
  unfold refreshInterest
  split
  · rfl
  simp only
  split
  · simp [markClosed]
  split
  · simp [markClosed]
  split
  · rw [updateReadBackPressure_trace]
  · rw [updateReadBackPressure_trace]

/-- Only a Hangup sets the hangup flag. -/
theorem hungUp_afterRead {o : NetworkOptions} {events : IoEvent} {input : IoInput Q}
    {conn : Connection} (h : (conn.afterRead o events input).1.trace.hungUp = true) :
    conn.trace.hungUp = true ∨ events.hangup = true := by
  cases hhangup : events.hangup with
  | true => exact .inr rfl
  | false =>
      left
      have hwrite : (if !conn.closed && events.write then conn.handleClientWrite o input
          else conn).trace.hungUp = conn.trace.hungUp := by
        split
        · exact hungUp_handleClientWrite o input conn
        · rfl
      unfold afterRead at h
      simp only [hhangup, Bool.and_false, Bool.false_eq_true, if_false] at h
      rw [← hwrite]
      generalize (if !conn.closed && events.write then conn.handleClientWrite o input
        else conn) = written at h ⊢
      split at h
      · rwa [hungUp_refreshInterest] at h
      · exact h

theorem stream_eq_append {a b : Connection} {bytes : Bytes}
    (h : b.trace.received = a.trace.received ++ [bytes]) : b.stream = a.stream ++ bytes := by
  simp [stream, h]

theorem stream_rejectOversizedReadBuffer (o : NetworkOptions) (conn : Connection) :
    (conn.rejectOversizedReadBuffer o).stream = conn.stream ∧
      (conn.rejectOversizedReadBuffer o).trace.hungUp = conn.trace.hungUp := by
  unfold rejectOversizedReadBuffer
  rcases queueResponse_cases o conn (ascii "-ERR request buffer too large") with
    ⟨cause, calls, -, -, heq⟩ | ⟨paused, calls, -, -, -, heq⟩
  · rw [heq]
    exact ⟨rfl, rfl⟩
  · rw [heq]
    exact ⟨rfl, rfl⟩

/-- What the read handler takes out of the socket. -/
structure Takes (socket : Socket) (before after : Connection) (bytes : Bytes) : Prop where
  stream : after.stream = before.stream ++ bytes
  taken : bytes <+: socket.unread
  hungUp : after.trace.hungUp = before.trace.hungUp
  ended : .endOfInput ∈ after.trace.causes →
    .endOfInput ∈ before.trace.causes ∨ socket.unread = [] ∧ socket.finQueued = true

theorem Takes.nothing {socket : Socket} {before after : Connection}
    (hstream : after.stream = before.stream) (hhung : after.trace.hungUp = before.trace.hungUp)
    (hend : .endOfInput ∈ after.trace.causes → .endOfInput ∈ before.trace.causes ∨
      socket.unread = [] ∧ socket.finQueued = true) : Takes socket before after [] :=
  ⟨by rw [hstream, List.append_nil], List.nil_prefix, hhung, hend⟩

theorem not_endOfInput {a b : Connection} (h : NewCauses ofLimit a b)
    (hmem : .endOfInput ∈ b.trace.causes) : .endOfInput ∈ a.trace.causes :=
  (h _ hmem).resolve_right (by decide)

/-- The read handler takes a prefix of what is unread. -/
theorem takes_handleClientRead (o : NetworkOptions) {input : IoInput Q} {socket : Socket}
    {a : Socket.Answer} (hanswer : input.recv.result = socket.answer a) (store : Store Q)
    (conn : Connection) :
    ∃ bytes, Takes socket conn (conn.handleClientRead o input store).1 bytes := by
  by_cases hreading : conn.Reading
  swap
  · rw [handleClientRead_refused hreading]
    exact ⟨[], .nothing rfl rfl .inl⟩
  have houtcome := handleClientRead_outcome hreading o input store
  generalize conn.handleClientRead o input store = result at houtcome ⊢
  cases houtcome with
  | oversized hfull =>
      obtain ⟨hstream, hhung⟩ := stream_rejectOversizedReadBuffer o conn
      exact ⟨[], .nothing hstream hhung fun hend =>
        .inl (not_endOfInput (newCauses_rejectOversizedReadBuffer o conn) hend)⟩
  | ended hroom hrecv hnil =>
      refine ⟨[], .nothing rfl rfl fun _ => .inr ?_⟩
      apply Socket.answer_nil (hanswer ▸ hrecv) _ hnil
      unfold readSize
      omega
  | @bytes ready hroom hrecv hnil =>
      have hreceived := received_receiveBytes o input.ambient store hreading.opened
        hreading.serving (ready.take (conn.readSize o))
      exact ⟨_, stream_eq_append hreceived.received,
        (List.take_prefix ..).trans (Socket.answer_prefix (hanswer ▸ hrecv)), hreceived.hungUp,
        fun hend => .inl (not_endOfInput hreceived.newCauses hend)⟩
  | wouldBlock hrecv => exact ⟨[], .nothing rfl rfl .inl⟩
  | failed hrecv =>
      refine ⟨[], .nothing rfl rfl fun hend => .inl ?_⟩
      simpa [markClosed] using hend

/-- What the handling of an event takes out of the socket, and what it ends the reading
for. -/
theorem takes_handleEvent (o : NetworkOptions) (state : ServerState) (events : IoEvent)
    {input : IoInput Q} {socket : Socket} {a : Socket.Answer}
    (hanswer : input.recv.result = socket.answer a) (store : Store Q) (conn : Connection) :
    let after := (conn.handleEvent o state events input store).1.1
    (∃ bytes, after.stream = conn.stream ++ bytes ∧ bytes <+: socket.unread) ∧
    (after.trace.hungUp = true →
      conn.trace.hungUp = true ∨ events.hangup = true ∧ events.error = false) ∧
    (.endOfInput ∈ after.trace.causes →
      .endOfInput ∈ conn.trace.causes ∨ socket.unread = [] ∧ socket.finQueued = true) := by
  intro after
  have hdelivered : ∀ {a b : Connection}, Delivers a b → .endOfInput ∈ b.trace.causes →
      .endOfInput ∈ a.trace.causes := fun hab hend =>
    (hab.newCauses _ hend).resolve_right (by decide)
  have hafter : after = (conn.handleEvent o state events input store).1.1 := rfl
  rw [handleEvent_cases] at hafter
  split at hafter
  · rw [hafter]
    exact ⟨⟨[], (List.append_nil _).symm, List.nil_prefix⟩, .inl,
      fun hend => .inl (by simpa [markClosed] using hend)⟩
  next herror =>
    rw [Bool.not_eq_true] at herror
    split at hafter
    · obtain ⟨bytes, htakes⟩ := takes_handleClientRead o hanswer store conn
      have hrest := delivers_afterRead o events input (conn.handleClientRead o input store).1
      rw [hafter]
      refine ⟨⟨bytes, hrest.stream.trans htakes.stream, htakes.taken⟩, fun hhung => ?_,
        fun hend => htakes.ended (hdelivered hrest hend)⟩
      rw [← htakes.hungUp]
      exact (hungUp_afterRead hhung).imp_right fun h => ⟨h, herror⟩
    · have hrest := delivers_afterRead o events input conn
      rw [hafter]
      exact ⟨⟨[], by rw [hrest.stream, List.append_nil], List.nil_prefix⟩,
        fun hhung => (hungUp_afterRead hhung).imp_right fun h => ⟨h, herror⟩,
        fun hend => .inl (hdelivered hrest hend)⟩

theorem hungUp_beginDrain (o : NetworkOptions) (conn : Connection) :
    (conn.beginDrain o).1.trace.hungUp = conn.trace.hungUp := by
  unfold beginDrain
  simp only
  split
  · rfl
  · exact hungUp_refreshInterest o _

end Connection

namespace HalfClose

/-- Such an event leaves nothing unread. -/
theorem TakesAll.stream {o : NetworkOptions} {s : HalfClose Q} {events : IoEvent}
    {recv : Syscall Socket.Answer} (h : s.TakesAll o events recv) (herror : events.error = false)
    {input : IoInput Q} (hanswer : input.recv.result = s.socket.answer recv.result)
    (store : Store Q) :
    (s.conn.handleEvent o s.session.phase events input store).1.1.stream =
      s.conn.stream ++ s.socket.unread := by
  obtain ⟨more, hmore, hall, hsize⟩ := h.all
  rw [Connection.handleEvent_cases, if_neg (by simp [herror]), if_pos ⟨h.running, h.read⟩]
  rw [(Connection.delivers_afterRead o events input _).stream]
  by_cases hunread : s.socket.unread = []
  · obtain ⟨bytes, htakes⟩ := Connection.takes_handleClientRead o hanswer store s.conn
    have hnil : bytes = [] := List.prefix_nil.mp (hunread ▸ htakes.taken)
    rw [htakes.stream, hnil, hunread]
  -- `recv` has all unread bytes ready, and the handler asks for at least as many
  have hready : s.socket.answer recv.result = .bytes s.socket.unread := by
    rw [hmore, Socket.answer, if_neg hunread, List.take_of_length_le hall]
  have htake : s.socket.unread.take (s.conn.readSize o) = s.socket.unread :=
    List.take_of_length_le hsize
  unfold Connection.handleClientRead
  rw [if_neg (by simp [h.reading.opened, h.reading.unpaused, h.reading.serving]),
    if_neg (Nat.not_le.mpr h.room), hanswer, hready]
  simp only
  rw [htake, if_neg hunread]
  exact Connection.stream_eq_append (Connection.received_receiveBytes o input.ambient store
    h.reading.opened h.reading.serving s.socket.unread).received

/-- The invariant: nothing sent is lost between the connection and its socket, and the
reading ends only behind the last byte before the FIN. -/
structure Kept (s : HalfClose Q) : Prop where
  sent : s.sent = s.conn.stream ++ s.socket.unread
  reported : ∀ events, s.reported = some events → events.hangup = true →
    s.socket.finQueued = true
  stopped : s.conn.trace.hungUp = true ∨ .endOfInput ∈ s.conn.trace.causes →
    s.socket.finQueued = true ∧ s.socket.unread = []

theorem kept_start (fd : Int) (store : Store Q) : (start fd store).Kept where
  sent := rfl
  reported := nofun
  stopped h := by
    obtain h | h := h
    · cases h
    · cases h

/-- A step of the session that reads nothing and ends no reading. -/
theorem Kept.unread {s : HalfClose Q} (h : s.Kept) {session : Session Q}
    (hstream : session.conn.stream = s.conn.stream)
    (hhung : session.conn.trace.hungUp = s.conn.trace.hungUp)
    (hend : .endOfInput ∈ session.conn.trace.causes → .endOfInput ∈ s.conn.trace.causes) :
    ({ s with session } : HalfClose Q).Kept where
  sent := by
    rw [h.sent]
    exact congrArg (· ++ s.socket.unread) hstream.symm
  reported := h.reported
  stopped hstop := h.stopped (hstop.imp (fun hup => hhung ▸ hup) hend)

/-- A step of the session that takes bytes out of the socket, all of them if it ends the
reading. -/
theorem Kept.consumed {s : HalfClose Q} (h : s.Kept) {session : Session Q} {bytes : Bytes}
    (hstream : session.conn.stream = s.conn.stream ++ bytes) (htaken : bytes <+: s.socket.unread)
    (hstop : session.conn.trace.hungUp = true ∨ .endOfInput ∈ session.conn.trace.causes →
      s.socket.finQueued = true ∧ s.socket.unread = bytes) : (s.consumed session).Kept := by
  obtain ⟨rest, hrest⟩ := htaken
  have hlen : session.conn.stream.length - s.conn.stream.length = bytes.length := by
    rw [hstream, List.length_append, Nat.add_sub_cancel_left]
  have hunread : (s.consumed session).socket.unread = rest := by
    simp only [HalfClose.consumed, hlen, ← hrest, List.drop_left]
  refine ⟨?_, nofun, fun hstopped => ?_⟩
  · rw [hunread]
    calc s.sent = s.conn.stream ++ (bytes ++ rest) := by rw [h.sent, ← hrest]
      _ = session.conn.stream ++ rest := by rw [hstream, List.append_assoc]
  · obtain ⟨hfin, hall⟩ := hstop hstopped
    refine ⟨hfin, ?_⟩
    rw [hunread]
    rw [hall] at hrest
    simpa using hrest

theorem Kept.handle {o : NetworkOptions} {s : HalfClose Q} (h : s.Kept) {events : IoEvent}
    (hreported : s.reported = some events) (recv : Syscall Socket.Answer)
    (send : Syscall SendResult) (ambient : Nat → Ambient Q) (modityOk : Bool)
    (hdrained : events.hangup = true → s.socket.unread = [] ∨ s.TakesAll o events recv) :
    (s.consumed (s.session.step o
      (.ready events ⟨recv.map s.socket.answer, send, ambient⟩ modityOk))).Kept := by
  let input : IoInput Q := ⟨recv.map s.socket.answer, send, ambient⟩
  have hanswer : input.recv.result = s.socket.answer recv.result := Syscall.result_map ..
  by_cases hstopped : s.session.phase = .stopped
  · have hsame : s.session.step o (.ready events input modityOk) = s.session := by
      simp [Session.step, hstopped]
    rw [hsame]
    exact h.consumed (List.append_nil _).symm List.nil_prefix h.stopped
  obtain ⟨registered, hconn⟩ := Session.step_ready hstopped o events input modityOk
  obtain ⟨⟨bytes, hstream, htaken⟩, hhung, hend⟩ :=
    Connection.takes_handleEvent o s.session.phase events hanswer s.session.store s.conn
  -- once nothing is unread, the event has taken nothing
  have hnothing : s.socket.finQueued = true ∧ s.socket.unread = [] →
      s.socket.finQueued = true ∧ s.socket.unread = bytes := by
    rintro ⟨hfin, hunread⟩
    rw [hunread] at htaken ⊢
    exact ⟨hfin, (List.prefix_nil.mp htaken).symm⟩
  refine h.consumed ?_ htaken ?_
  · rw [hconn]
    exact hstream
  · rw [hconn]
    rintro (hup | hended)
    · obtain hup | ⟨hhangup, herror⟩ := hhung hup
      · exact hnothing (h.stopped (.inl hup))
      · have hfin := h.reported events hreported hhangup
        obtain hunread | htakes := hdrained hhangup
        · exact hnothing ⟨hfin, hunread⟩
        · have hall := htakes.stream herror hanswer s.session.store
          exact ⟨hfin, (List.append_cancel_left (hstream.symm.trans hall)).symm⟩
    · obtain hended | ⟨hunread, hfin⟩ := hend hended
      · exact hnothing (h.stopped (.inr hended))
      · exact hnothing ⟨hfin, hunread⟩

/-- The beginning of the shutdown reads nothing. -/
theorem Kept.beginDrain {s : HalfClose Q} (h : s.Kept) (o : NetworkOptions)
    (backend : PollerBackend) (modityOk : Bool) :
    (s.step o backend (.beginDrain modityOk)).Kept := by
  by_cases hrunning : s.session.phase = .running
  · obtain ⟨registered, heq⟩ := Session.step_beginDrain hrunning o modityOk
    have hdrain := Connection.delivers_beginDrain o s.conn
    apply h.unread
    · rw [heq]
      exact hdrain.stream
    · rw [heq]
      exact Connection.hungUp_beginDrain o s.conn
    · rw [heq]
      intro hend
      exact (hdrain.newCauses _ hend).resolve_right (by decide)
  · have hsame : s.session.step o (.beginDrain modityOk) = s.session := by
      simp [Session.step, hrunning]
    exact h.unread (by rw [hsame]) (by rw [hsame]) (by rw [hsame]; exact id)

/-- A forced close reads nothing. -/
theorem Kept.forceClose {s : HalfClose Q} (h : s.Kept) (o : NetworkOptions)
    (backend : PollerBackend) (reason : ForcedClose) :
    (s.step o backend (.forceClose reason)).Kept := by
  by_cases hstopped : s.session.phase = .stopped
  · have hsame : s.session.step o (.forceClose reason) = s.session := by
      simp [Session.step, hstopped]
    exact h.unread (by rw [hsame]) (by rw [hsame]) (by rw [hsame]; exact id)
  · have hconn : (s.session.step o (.forceClose reason)).conn = s.conn.markClosed reason.cause := by
      simp [Session.step, hstopped]
    apply h.unread
    · rw [hconn]
      rfl
    · rw [hconn]
      rfl
    · rw [hconn]
      intro hend
      cases reason <;> simpa [Connection.markClosed, ForcedClose.cause] using hend

/-- One event under the condition on Hangups; by cases on the event. -/
theorem kept_step {o : NetworkOptions} {backend : PollerBackend} (s : HalfClose Q)
    (event : HalfCloseEvent Q) (h : s.Kept) (hdrained : s.HangupDrained o event) :
    (s.step o backend event).Kept := by
  cases event with
  | send bytes =>
      simp only [step]
      split
      · exact h
      next hfin =>
        refine ⟨?_, h.reported, fun hstop => absurd (h.stopped hstop).1 hfin⟩
        simp only [h.sent, List.append_assoc]
  | shutdown => exact ⟨h.sent, fun _ _ _ => rfl, fun hstop => ⟨rfl, (h.stopped hstop).2⟩⟩
  | wait writable error =>
      refine ⟨h.sent, fun events hevents hhangup => ?_, h.stopped⟩
      simp only [step] at hevents
      split at hevents
      · cases hevents
      · cases hevents
        exact (Socket.hangup_reported hhangup).2
  | handle recv send ambient modityOk =>
      cases hreported : s.reported with
      | none =>
          simp only [step, hreported]
          exact h
      | some events =>
          simp only [step, hreported]
          split
          · exact ⟨h.sent, nofun, h.stopped⟩
          · exact h.handle hreported recv send ambient modityOk (hdrained events hreported)
  | beginDrain modityOk => exact h.beginDrain o backend modityOk
  | forceClose reason => exact h.forceClose o backend reason
  | abort => exact h.unread rfl rfl id

/-! ### Runs -/

/-- A step changes the session by at most one event, and what has been sent only grows. -/
theorem step_session (o : NetworkOptions) (backend : PollerBackend) (s : HalfClose Q)
    (event : HalfCloseEvent Q) :
    s.sent <+: (s.step o backend event).sent ∧
      ((s.step o backend event).session = s.session ∨
        ∃ e, (s.step o backend event).session = s.session.step o e) := by
  cases event with
  | send bytes =>
      simp only [step]
      split
      · exact ⟨List.prefix_rfl, .inl rfl⟩
      · exact ⟨List.prefix_append .., .inl rfl⟩
  | shutdown => exact ⟨List.prefix_rfl, .inl rfl⟩
  | wait writable error => exact ⟨List.prefix_rfl, .inl rfl⟩
  | handle recv send ambient modityOk =>
      cases hreported : s.reported with
      | none =>
          simp only [step, hreported]
          exact ⟨List.prefix_rfl, .inl trivial⟩
      | some events =>
          simp only [step, hreported]
          split
          · exact ⟨List.prefix_rfl, .inl rfl⟩
          · exact ⟨List.prefix_rfl,
              .inr ⟨.ready events ⟨recv.map s.socket.answer, send, ambient⟩ modityOk, rfl⟩⟩
  | beginDrain modityOk => exact ⟨List.prefix_rfl, .inr ⟨.beginDrain modityOk, rfl⟩⟩
  | forceClose reason => exact ⟨List.prefix_rfl, .inr ⟨.forceClose reason, rfl⟩⟩
  | abort => exact ⟨List.prefix_rfl, .inr ⟨.abort, rfl⟩⟩

/-- The frames of some payloads, none of them QUIT, all of which the read buffer can hold. -/
structure Requests (o : NetworkOptions) (payloads : List Bytes) : Prop where
  accepted : o.Accepted
  valid : ∀ payload ∈ payloads, payload.length ≤ maxFrameSize
  noQuit : ∀ payload ∈ payloads, Connection.isQuit payload = false
  fits : ∀ payload ∈ payloads, (frameOf payload).length ≤ o.maxReadBufferBytes

theorem Requests.next {o : NetworkOptions} {payloads : List Bytes} (h : Requests o payloads) :
    ∀ payload ∈ payloads, ∀ more,
      frameParser.next (frameOf payload ++ more) = .item payload more :=
  fun payload hmem more => next_frameOf (h.valid payload hmem) more

/-- The frames of requests are drained without a rejection. -/
theorem Requests.drain {o : NetworkOptions} {payloads : List Bytes} (h : Requests o payloads) :
    frameParser.drain (payloads.flatMap frameOf) = ⟨payloads, [], false⟩ := by
  have hall := frameParser.drain_encoded h.next []
  rw [List.append_nil, frameParser.drain_more next_nil] at hall
  simpa using hall

/-- What has been received of requests is not rejected, and asks for no end. -/
theorem Requests.received {o : NetworkOptions} {payloads : List Bytes} (h : Requests o payloads)
    {stream unread : Bytes} (hall : payloads.flatMap frameOf = stream ++ unread) :
    (frameParser.drain stream).rejected = false ∧
      (frameParser.drain stream).items.any Connection.isQuit = false := by
  have hdrain := h.drain
  rw [hall] at hdrain
  refine ⟨frameParser.rejected_of_append (by rw [hdrain]), ?_⟩
  obtain ⟨rest, hitems⟩ := Connection.items_append stream unread
  rw [hdrain] at hitems
  rw [List.any_eq_false]
  intro payload hmem
  have hrequest : payload ∈ payloads := by
    rw [show payloads = _ from hitems]
    exact List.mem_append_left rest hmem
  rw [h.noQuit payload hrequest]
  exact Bool.false_ne_true

/-- Parts of requests leave room in the read buffer. -/
theorem Requests.hasRoom {o : NetworkOptions} {payloads : List Bytes} (h : Requests o payloads)
    {conn : Connection} (hstream : conn.stream <+: payloads.flatMap frameOf) :
    conn.HasRoom o := by
  intro hbuffer _
  rw [hbuffer]
  obtain hnil | ⟨payload, hmem, hlt⟩ := frameParser.length_rest_of_prefix h.next hstream
  · have := h.accepted.read
    rw [hnil, List.length_nil]
    omega
  · exact hlt.trans_le (h.fits payload hmem)

/-- What a client that has sent nothing but requests can rely on. -/
def Progressing (payloads : List Bytes) (s : HalfClose Q) : Prop :=
  s.sent <+: payloads.flatMap frameOf → s.session.phase = .running →
    s.conn.Progress ∧ s.conn.Wanted

theorem progressing_step {o : NetworkOptions} {backend : PollerBackend} {payloads : List Bytes}
    (hrequests : Requests o payloads) (hhigh : 0 < o.writeHighWatermarkBytes)
    {s : HalfClose Q} (hkept : s.Kept) (h : s.Progressing payloads)
    (event : HalfCloseEvent Q) : (s.step o backend event).Progressing payloads := by
  intro hsent hrunning
  obtain ⟨hgrows, hsession⟩ := step_session o backend s event
  have hbefore := h (hgrows.trans hsent)
  obtain hsame | ⟨e, hstep⟩ := hsession
  · rw [conn, hsame]
    exact hbefore (hsame ▸ hrunning)
  · have hroom : s.conn.HasRoom o := by
      apply hrequests.hasRoom
      calc s.conn.stream <+: s.conn.stream ++ s.socket.unread := List.prefix_append ..
        _ = s.sent := hkept.sent.symm
        _ <+: payloads.flatMap frameOf := hgrows.trans hsent
    rw [hstep] at hrunning
    rw [conn, hstep]
    exact ⟨Session.progress_step (fun hphase => (hbefore hphase).1) hroom hrunning,
      Session.wanted_step hhigh (fun hphase => (hbefore hphase).2) hrunning⟩

/-- A client that sends requests and shuts down its side: in a run whose Hangups find the
socket drained, or drain it, the reading ends only when nothing is unread, and a connection
that ends undisturbed has executed every request. -/
theorem requests_kept (o : NetworkOptions) (backend : PollerBackend) (fd : Int)
    (store : Store Q) (events : List (HalfCloseEvent Q))
    (hdrained : (machine o backend).Meets (HangupDrained o) (start fd store) events) :
    let s := (start fd store).run o backend events
    (s.conn.trace.hungUp = true ∨ .endOfInput ∈ s.conn.trace.causes → s.socket.unread = []) ∧
    ∀ payloads, Requests o payloads → 0 < o.writeHighWatermarkBytes →
      s.sent = payloads.flatMap frameOf → s.session.phase = .running → ¬ s.conn.Disturbed →
        s.conn.closed = true → s.conn.executedPayloads = payloads := by
  intro s
  have hkept : s.Kept := (machine o backend).run_invariant_of_meets
    (fun s event hs => kept_step s event hs) (kept_start fd store) hdrained
  refine ⟨fun hstop => (hkept.stopped hstop).2, ?_⟩
  intro payloads hrequests hhigh hsent hrunning hcalm hclosed
  obtain ⟨-, hprogress⟩ : s.Kept ∧ s.Progressing payloads := by
    refine (machine o backend).run_invariant_of_meets
      (I := fun s => s.Kept ∧ s.Progressing payloads) ?_ ⟨kept_start fd store, fun _ _ => ?_⟩
      hdrained
    · intro s event hs hmeets
      exact ⟨kept_step s event hs.1 hmeets, progressing_step hrequests hhigh hs.1 hs.2 event⟩
    · exact ⟨Connection.progress_accepted fd, fun hmem => by cases hmem⟩
  obtain ⟨hcome, hwanted⟩ := hprogress (hsent ▸ List.prefix_rfl) hrunning
  have hstream : payloads.flatMap frameOf = s.conn.stream ++ s.socket.unread :=
    hsent.symm.trans hkept.sent
  obtain ⟨haccepted', hquit'⟩ := hrequests.received hstream
  cases hcome with
  | serving hserving =>
      rw [hserving.1] at hclosed
      cases hclosed
  | quit hstopped haccepted hexecuted hquit =>
      rw [hquit'] at hquit
      cases hquit
  | @malformed before chunk hstopped hreceived haccepted hrejected hexecuted hquit =>
      have hall : s.conn.stream = before.flatten ++ chunk := by
        rw [Connection.stream, hreceived]
        simp
      rw [← hall, haccepted'] at hrejected
      cases hrejected
  | cutOff hstopped hcut haccepted hexecuted hquit =>
      have hstop : s.conn.trace.hungUp = true ∨ .endOfInput ∈ s.conn.trace.causes := by
        obtain hup | hend | hwant := hcut
        · exact .inl hup
        · exact .inr hend
        · exact absurd hwant hwanted
      rw [(hkept.stopped hstop).2, List.append_nil] at hstream
      rw [hexecuted, ← hstream, hrequests.drain]
  | disturbed hdisturbed => exact absurd hdisturbed hcalm

/-- `poll` reports no Hangup, so that with it every run meets the condition. -/
theorem meets_poll (o : NetworkOptions) (fd : Int) (store : Store Q)
    (events : List (HalfCloseEvent Q)) :
    (machine o .poll).Meets (HangupDrained o) (start fd store) events := by
  apply (machine o .poll).meets_of_invariant
    (I := fun s => ∀ events, s.reported = some events → events.hangup = false)
  · intro s event h
    change ∀ events, (s.step o .poll event).reported = some events → events.hangup = false
    intro events hevents
    cases event with
    | send bytes =>
        simp only [step] at hevents
        split at hevents <;> exact h events hevents
    | wait writable error =>
        simp only [step] at hevents
        split at hevents
        · cases hevents
        · cases hevents
          rfl
    | handle recv send ambient modityOk =>
        cases hreported : s.reported with
        | none =>
            simp only [step, hreported] at hevents
            cases hevents
        | some ready =>
            simp only [step, hreported] at hevents
            split at hevents <;> cases hevents
    | shutdown => exact h events hevents
    | beginDrain modityOk => exact h events hevents
    | forceClose reason => exact h events hevents
    | abort => exact h events hevents
  · intro s event h
    cases event with
    | handle recv send ambient modityOk =>
        intro events hevents hhangup
        rw [h events hevents] at hhangup
        cases hhangup
    | _ => trivial
  · nofun

/-- The handling of the reported events when the kernel hands out at most eight bytes and
takes as much output as it is offered, or none. -/
def handling (takesOutput : Bool) : HalfCloseEvent sortedExpirations :=
  .handle (.returned (.upTo 7))
    (.returned (if takesOutput then .accepted 64 else .wouldBlock)) Session.quiet true

/-- One PING whose event reports the FIN too, and the sending of its response. -/
def onePing : List (HalfCloseEvent sortedExpirations) :=
  [.send (frameOf (ascii "PING")), .shutdown, .wait false false, handling false,
    .wait true false, handling true]

theorem requests_kept_ping :
    ((start 5 Store.empty).run {} .epoll onePing).socket.unread = [] ∧
      ((start 5 Store.empty).run {} .epoll onePing).conn.executedPayloads = [ascii "PING"] := by
  have hmeets : (machine {} .epoll).Meets (HangupDrained {}) (start 5 Store.empty) onePing := by
    refine ⟨trivial, trivial, trivial, fun events hevents _ => .inr ?_, trivial,
      fun _ _ _ => .inl (by decide), trivial⟩
    cases hevents
    exact ⟨rfl, rfl, ⟨rfl, rfl, rfl⟩, by decide, 7, rfl, by decide, by decide⟩
  obtain ⟨hunread, hexecuted⟩ := requests_kept {} .epoll 5 Store.empty onePing hmeets
  have hrequests : Requests {} [ascii "PING"] :=
    ⟨NetworkOptions.check_ok_iff.mp rfl, by decide, by decide, by decide⟩
  have hcauses : ((start 5 Store.empty).run {} .epoll onePing).conn.trace.causes = [.flushed] := by
    decide
  refine ⟨hunread (.inl (by decide)),
    hexecuted [ascii "PING"] hrequests (by decide) (by decide) rfl ?_ (by decide)⟩
  rintro ⟨cause, hcause, hdisturbing⟩
  rw [hcauses] at hcause
  cases List.mem_singleton.mp hcause
  cases hdisturbing

/-- Reading is paused after the first PING when the second one and the FIN arrive: the
Hangup ends the reading, and the second PING is never executed. -/
theorem requests_lost_while_paused :
    let o : NetworkOptions := { writeHighWatermarkBytes := 1, writeLowWatermarkBytes := 0 }
    let ping := frameOf (ascii "PING")
    let s := (start 5 Store.empty).run o .epoll
      [.send ping, .wait false false, handling false, .send ping, .shutdown, .wait false false,
        handling false]
    let final := s.run o .epoll [.wait true false, handling true]
    ConfigLoader.validate { network := o } = .ok () ∧
      s.conn.trace.hungUp = true ∧ s.socket.unread = ping ∧
      final.sent = [ascii "PING", ascii "PING"].flatMap frameOf ∧
      final.session.phase = .running ∧ final.conn.closed = true ∧
      final.conn.trace.causes = [.flushed] ∧ final.conn.executedPayloads = [ascii "PING"] := by
  decide

end HalfClose

end TinyKv
