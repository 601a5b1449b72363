import TinyKv.Net.Connection
import Mathlib.Data.List.Infix

/-!
# Steps that only deliver

Everything the event loop does with a connection, reading apart, appends nothing to the
write buffer and executes nothing: it sends pending bytes in order, moves the flags,
or closes the connection. `Delivers` says so once; it is a preorder, so that it holds
of whole runs of such steps as it holds of one.
-/

namespace TinyKv

namespace Connection

/-- The number of bytes a list of metric calls adds to `bytesSent`. -/
def bytesSent (calls : List MetricCall) : Nat := (calls.map MetricCall.bytesSent).sum

@[simp] theorem bytesSent_append (calls more : List MetricCall) :
    bytesSent (calls ++ more) = bytesSent calls + bytesSent more := by
  simp [bytesSent]

/-- Metric calls that count neither sent bytes nor decoded frames. -/
def Uncounted (calls : List MetricCall) : Prop :=
  ∀ call ∈ calls, call.bytesSent = 0 ∧ ∀ n, call ≠ .addFramesReceived n

theorem Uncounted.nil : Uncounted [] := fun _ hcall => by cases hcall

theorem Uncounted.not_mem {calls : List MetricCall} (h : Uncounted calls) (n : Nat) :
    .addFramesReceived n ∉ calls := fun hmem => (h _ hmem).2 n rfl

theorem Uncounted.bytesSent {calls : List MetricCall} (h : Uncounted calls) :
    bytesSent calls = 0 := by
  induction calls with
  | nil => rfl
  | cons call rest ih =>
      have hrest := ih fun c hc => h c (List.mem_cons_of_mem call hc)
      have hcall := (h call (List.mem_cons_self ..)).1
      simpa [Connection.bytesSent, hcall] using hrest

theorem Uncounted.append {calls more : List MetricCall} (h : Uncounted calls)
    (h' : Uncounted more) : Uncounted (calls ++ more) := by
  intro call hcall
  obtain hc | hc := List.mem_append.mp hcall
  · exact h call hc
  · exact h' call hc

/-- The pending bytes. -/
abbrev pending (conn : Connection) : Bytes := conn.writeBuffer.data

/-- The causes a connection can be closed with when nothing is read. -/
def ofDelivery : CloseCause → Bool
  | .errorEvent | .sendFailed | .flushed | .hangup | .noInterest | .drained => true
  | _ => false

/-- `after` comes from `before` by sending pending bytes, moving flags and closing. -/
structure Delivers (before after : Connection) : Prop where
  fd : after.fd = before.fd
  received : after.trace.received = before.trace.received
  executed : after.trace.executed = before.trace.executed
  queued : after.trace.queued = before.trace.queued
  calls : before.calls <+: after.calls
  frames : ∀ n, .addFramesReceived n ∈ after.calls → .addFramesReceived n ∈ before.calls
  causes : before.trace.causes <+: after.trace.causes
  newCauses : ∀ cause ∈ after.trace.causes,
    cause ∈ before.trace.causes ∨ ofDelivery cause = true
  hungUp : before.trace.hungUp = true → after.trace.hungUp = true
  delivered : ∃ bytes, after.trace.sent = before.trace.sent ++ bytes ∧
    bytes <+: before.pending ∧ (after.closed = false → before.pending = bytes ++ after.pending) ∧
    (before.closed = true → bytes = []) ∧
    bytesSent after.calls = bytesSent before.calls + bytes.length
  emptied : before.pending = [] → after.pending = []
  opened : after.closed = false → before.closed = false ∧
    after.readBuffer = before.readBuffer ∧
    (before.closeAfterWrite = true → after.closeAfterWrite = true)
  kept : after.closed = false → after.trace.causes = before.trace.causes
  closing : before.closed = false → after.closed = true → after.pending = [] ∧
    (after.trace.sent = before.trace.sent ++ before.pending ∨
      .errorEvent ∈ after.trace.causes ∨ .sendFailed ∈ after.trace.causes)

theorem Delivers.refl (conn : Connection) : Delivers conn conn where
  fd := rfl
  received := rfl
  executed := rfl
  queued := rfl
  calls := List.prefix_rfl
  frames _ := id
  causes := List.prefix_rfl
  newCauses _ := .inl
  hungUp := id
  delivered := ⟨[], by simp, List.nil_prefix, fun _ => rfl, fun _ => rfl, rfl⟩
  emptied := id
  opened h := ⟨h, rfl, id⟩
  kept _ := rfl
  closing h h' := by
    rw [h] at h'
    cases h'

theorem Delivers.closed {a b : Connection} (h : Delivers a b) (hclosed : a.closed = true) :
    b.closed = true := by
  by_contra hb
  have := (h.opened (Bool.eq_false_iff.mpr hb)).1
  rw [hclosed] at this
  cases this

theorem Delivers.trans {a b c : Connection} (hab : Delivers a b) (hbc : Delivers b c) :
    Delivers a c := by
  obtain ⟨sent, hsent, hprefix, hopen, hstop, hcount⟩ := hab.delivered
  obtain ⟨sent', hsent', hprefix', hopen', hstop', hcount'⟩ := hbc.delivered
  refine ⟨hbc.fd.trans hab.fd, hbc.received.trans hab.received,
    hbc.executed.trans hab.executed, hbc.queued.trans hab.queued,
    hab.calls.trans hbc.calls, fun n h => hab.frames n (hbc.frames n h),
    hab.causes.trans hbc.causes, ?_,
    fun h => hbc.hungUp (hab.hungUp h),
    ⟨sent ++ sent', ?_, ?_, ?_, ?_, ?_⟩, fun h => hbc.emptied (hab.emptied h), ?_,
    fun h => (hbc.kept h).trans (hab.kept (hbc.opened h).1), ?_⟩
  · intro cause hcause
    obtain h | h := hbc.newCauses cause hcause
    · exact hab.newCauses cause h
    · exact .inr h
  · rw [hsent', hsent, List.append_assoc]
  · cases hb : b.closed with
    | false =>
        rw [hopen hb]
        exact (List.prefix_append_right_inj sent).mpr hprefix'
    | true => simpa [hstop' hb] using hprefix
  · intro hc
    rw [hopen (hbc.opened hc).1, hopen' hc, List.append_assoc]
  · intro ha
    rw [hstop ha, hstop' (hab.closed ha)]
    rfl
  · rw [hcount', hcount, List.length_append, Nat.add_assoc]
  · intro hc
    obtain ⟨hb, hbuffer, hflag⟩ := hbc.opened hc
    obtain ⟨ha, hbuffer', hflag'⟩ := hab.opened hb
    exact ⟨ha, hbuffer.trans hbuffer', fun h => hflag (hflag' h)⟩
  · intro ha hc
    cases hb : b.closed with
    | false =>
        obtain ⟨hnil, hwhy⟩ := hbc.closing hb hc
        refine ⟨hnil, hwhy.imp_left fun h => ?_⟩
        rw [h, hsent, hopen hb, List.append_assoc]
    | true =>
        obtain ⟨hnil, hwhy⟩ := hab.closing ha hb
        refine ⟨hbc.emptied hnil, ?_⟩
        obtain h | h | h := hwhy
        · exact .inl (by rw [hsent', hstop' hb, List.append_nil, h])
        · exact .inr (.inl (hbc.causes.subset h))
        · exact .inr (.inr (hbc.causes.subset h))

/-! ### The handlers that deliver -/

theorem Delivers.markClosed (conn : Connection) {cause : CloseCause}
    (hcause : ofDelivery cause = true)
    (h : conn.pending = [] ∨ cause = .errorEvent ∨ cause = .sendFailed) :
    Delivers conn (conn.markClosed cause) where
  fd := rfl
  received := rfl
  executed := rfl
  queued := rfl
  calls := List.prefix_rfl
  frames _ := id
  causes := List.prefix_append ..
  newCauses c hc := by
    obtain hc | hc := List.mem_append.mp hc
    · exact .inl hc
    · exact .inr (List.mem_singleton.mp hc ▸ hcause)
  hungUp := id
  delivered := ⟨[], by simp [Connection.markClosed], List.nil_prefix,
    by simp [Connection.markClosed], fun _ => rfl, rfl⟩
  emptied _ := rfl
  opened h := by simp [Connection.markClosed] at h
  kept h := by simp [Connection.markClosed] at h
  closing _ _ := by
    refine ⟨rfl, ?_⟩
    obtain h | rfl | rfl := h
    · left
      rw [h, List.append_nil]
      rfl
    · simp [Connection.markClosed]
    · simp [Connection.markClosed]

/-- Moving the flags, the registered interests and the metrics. -/
theorem Delivers.adjust (conn : Connection) (paused : Bool) (events : IoEvent)
    (calls : List MetricCall) (after hungUp : Bool)
    (hafter : conn.closeAfterWrite = true → after = true)
    (hhung : conn.trace.hungUp = true → hungUp = true) (hcalls : Uncounted calls) :
    Delivers conn { conn with
      readPaused := paused
      closeAfterWrite := after
      registeredEvents := events
      calls := conn.calls ++ calls
      trace.hungUp := hungUp } where
  fd := rfl
  received := rfl
  executed := rfl
  queued := rfl
  calls := List.prefix_append ..
  frames n h := (List.mem_append.mp h).resolve_right (hcalls.not_mem n)
  causes := List.prefix_rfl
  newCauses _ := .inl
  hungUp := hhung
  delivered := ⟨[], by simp, List.nil_prefix, fun _ => rfl, fun _ => rfl,
    by simp [hcalls.bytesSent]⟩
  emptied := id
  opened h := ⟨h, rfl, hafter⟩
  kept _ := rfl
  closing h h' := by
    rw [h] at h'
    cases h'

theorem Delivers.register (conn : Connection) (events : IoEvent) :
    Delivers conn { conn with registeredEvents := events } := by
  simpa using Delivers.adjust conn conn.readPaused events [] _ _ id id .nil

/-- `UpdateReadBackPressure` moves one flag and counts it. -/
theorem updateReadBackPressure_eq (o : NetworkOptions) (conn : Connection) :
    ∃ paused calls, conn.updateReadBackPressure o =
        { conn with readPaused := paused, calls := conn.calls ++ calls } ∧
      Uncounted calls := by
  unfold updateReadBackPressure
  split
  · exact ⟨conn.readPaused, [], by simp, .nil⟩
  simp only
  split
  · split
    · exact ⟨false, [.onReadResumed], rfl, by simp [Uncounted, MetricCall.bytesSent]⟩
    · exact ⟨conn.readPaused, [], by simp, .nil⟩
  split
  · exact ⟨true, [.onReadPaused], rfl, by simp [Uncounted, MetricCall.bytesSent]⟩
  · exact ⟨conn.readPaused, [], by simp, .nil⟩

theorem delivers_updateReadBackPressure (o : NetworkOptions) (conn : Connection) :
    Delivers conn (conn.updateReadBackPressure o) := by
  obtain ⟨paused, calls, heq, hcalls⟩ := updateReadBackPressure_eq o conn
  rw [heq]
  exact Delivers.adjust conn paused conn.registeredEvents calls _ _ id id hcalls

@[simp] theorem updateReadBackPressure_pending (o : NetworkOptions) (conn : Connection) :
    (conn.updateReadBackPressure o).writeBuffer = conn.writeBuffer := by
  obtain ⟨paused, calls, heq, -⟩ := updateReadBackPressure_eq o conn
  rw [heq]

@[simp] theorem updateReadBackPressure_closeAfterWrite (o : NetworkOptions)
    (conn : Connection) :
    (conn.updateReadBackPressure o).closeAfterWrite = conn.closeAfterWrite := by
  obtain ⟨paused, calls, heq, -⟩ := updateReadBackPressure_eq o conn
  rw [heq]

@[simp] theorem updateReadBackPressure_closed (o : NetworkOptions) (conn : Connection) :
    (conn.updateReadBackPressure o).closed = conn.closed := by
  obtain ⟨paused, calls, heq, -⟩ := updateReadBackPressure_eq o conn
  rw [heq]

@[simp] theorem updateReadBackPressure_trace (o : NetworkOptions) (conn : Connection) :
    (conn.updateReadBackPressure o).trace = conn.trace := by
  obtain ⟨paused, calls, heq, -⟩ := updateReadBackPressure_eq o conn
  rw [heq]

theorem delivers_sendBytes (o : NetworkOptions) {conn : Connection} {bytes : Nat}
    (hopen : conn.closed = false) (h : bytes ≤ conn.writeBuffer.size) :
    Delivers conn (conn.sendBytes o bytes h) := by
  have hlen : (conn.pending.take bytes).length = bytes := by
    rw [List.length_take, ← OutputBuffer.size_eq]
    omega
  have hsent : Delivers conn { conn with
      trace.sent := conn.trace.sent ++ conn.writeBuffer.data.take bytes
      writeBuffer := conn.writeBuffer.advance bytes h
      calls := conn.calls ++ [MetricCall.addBytesSent bytes] } := by
    refine ⟨rfl, rfl, rfl, rfl, List.prefix_append .., fun n => by simp, List.prefix_rfl,
      fun _ => .inl, id, ⟨conn.pending.take bytes, rfl, List.take_prefix .., ?_, ?_, ?_⟩, ?_,
      fun h => ⟨h, rfl, id⟩, fun _ => rfl, ?_⟩
    · intro _
      simp only [pending, OutputBuffer.data_advance, List.take_append_drop]
    · intro hclosed
      rw [hopen] at hclosed
      cases hclosed
    · rw [bytesSent_append, hlen]
      rfl
    · intro hnil
      simp only [pending, OutputBuffer.data_advance] at hnil ⊢
      rw [hnil, List.drop_nil]
    · intro _ hclosed
      simp only [hopen] at hclosed
      cases hclosed
  unfold sendBytes
  refine hsent.trans ((delivers_updateReadBackPressure o _).trans ?_)
  simp only
  split
  · next hdone =>
    rw [Bool.and_eq_true, OutputBuffer.isEmpty_iff] at hdone
    exact Delivers.markClosed _ rfl (.inl hdone.1)
  · exact Delivers.refl _

theorem delivers_handleClientWrite {Q : ExpirationQueue} (o : NetworkOptions)
    (input : IoInput Q) (conn : Connection) :
    Delivers conn (conn.handleClientWrite o input) := by
  unfold handleClientWrite
  split
  · exact Delivers.refl conn
  next hopen =>
    split
    · next hempty =>
      refine (delivers_updateReadBackPressure o conn).trans ?_
      simp only
      split
      · refine Delivers.markClosed _ rfl (.inl ?_)
        rw [pending, updateReadBackPressure_pending]
        exact (OutputBuffer.isEmpty_iff _).mp hempty
      · exact Delivers.refl _
    · simp only
      cases input.send.result with
      | accepted bytes =>
          simp only
          split
          · exact delivers_sendBytes o (Bool.eq_false_iff.mpr hopen) _
          · exact Delivers.markClosed conn rfl (.inr (.inr rfl))
      | wouldBlock => exact Delivers.refl conn
      | failed => exact Delivers.markClosed conn rfl (.inr (.inr rfl))

theorem delivers_hangUp (conn : Connection) : Delivers conn conn.hangUp := by
  have hflags := Delivers.adjust conn true conn.registeredEvents [] true true
    (fun _ => rfl) (fun _ => rfl) .nil
  rw [List.append_nil] at hflags
  unfold hangUp
  refine hflags.trans ?_
  simp only
  split
  · next hempty =>
    rw [OutputBuffer.isEmpty_iff] at hempty
    exact Delivers.markClosed _ rfl (.inl hempty)
  · exact Delivers.refl _

/-- A connection without interests has nothing to send. -/
theorem pending_of_desiredEvents_none {conn : Connection} (hopen : conn.closed = false)
    (h : conn.desiredEvents = .none) : conn.pending = [] := by
  simp only [desiredEvents, hopen, Bool.false_eq_true, if_false, IoEvent.none,
    IoEvent.mk.injEq, Bool.not_eq_eq_eq_not, Bool.not_false] at h
  exact (OutputBuffer.isEmpty_iff _).mp h.2.1

theorem delivers_refreshInterest (o : NetworkOptions) (conn : Connection) :
    Delivers conn (conn.refreshInterest o).1 := by
  unfold refreshInterest
  split
  · exact Delivers.refl conn
  next hopen =>
    have hupdate := delivers_updateReadBackPressure o conn
    simp only
    split
    · next hdone =>
      rw [Bool.and_eq_true, OutputBuffer.isEmpty_iff] at hdone
      exact hupdate.trans (Delivers.markClosed _ rfl (.inl hdone.2))
    split
    · next hnone =>
      refine hupdate.trans (Delivers.markClosed _ rfl (.inl ?_))
      exact pending_of_desiredEvents_none (by simpa using hopen) hnone
    split
    · exact hupdate
    · exact hupdate

theorem delivers_beginDrain (o : NetworkOptions) (conn : Connection) :
    Delivers conn (conn.beginDrain o).1 := by
  have hflags := Delivers.adjust conn true conn.registeredEvents [] true _
    (fun _ => rfl) id .nil
  rw [List.append_nil] at hflags
  unfold beginDrain
  simp only
  split
  · next hempty =>
    rw [OutputBuffer.isEmpty_iff] at hempty
    exact hflags.trans (Delivers.markClosed _ rfl (.inl hempty))
  · exact hflags.trans (delivers_refreshInterest o _)

/-- The part of the event handling after the read: what the write, hangup and refresh
branches do. -/
def afterRead {Q : ExpirationQueue} (o : NetworkOptions) (events : IoEvent)
    (input : IoInput Q) (conn : Connection) : Connection × Option IoEvent :=
  let conn := if !conn.closed && events.write then conn.handleClientWrite o input else conn
  let conn := if !conn.closed && events.hangup then conn.hangUp else conn
  if !conn.closed then conn.refreshInterest o else (conn, none)

theorem delivers_afterRead {Q : ExpirationQueue} (o : NetworkOptions) (events : IoEvent)
    (input : IoInput Q) (conn : Connection) :
    Delivers conn (conn.afterRead o events input).1 := by
  unfold afterRead
  have hwrite : Delivers conn
      (if !conn.closed && events.write then conn.handleClientWrite o input else conn) :=
    iteInduction (fun _ => delivers_handleClientWrite o input conn) fun _ => Delivers.refl conn
  generalize (if !conn.closed && events.write then conn.handleClientWrite o input else conn) =
    conn₁ at hwrite
  have hhang : Delivers conn₁ (if !conn₁.closed && events.hangup then conn₁.hangUp else conn₁) :=
    iteInduction (fun _ => delivers_hangUp conn₁) fun _ => Delivers.refl conn₁
  simp only
  generalize (if !conn₁.closed && events.hangup then conn₁.hangUp else conn₁) = conn₂ at hhang
  refine hwrite.trans (hhang.trans ?_)
  split
  · exact delivers_refreshInterest o conn₂
  · exact Delivers.refl conn₂

/-- The handling of one ready event is an Error, a read followed by the rest, or the
rest alone. -/
theorem handleEvent_cases {Q : ExpirationQueue} (o : NetworkOptions) (state : ServerState)
    (events : IoEvent) (input : IoInput Q) (store : Store Q) (conn : Connection) :
    conn.handleEvent o state events input store =
      if events.error then
        ((conn.markClosed .errorEvent, none), store)
      else if state = .running ∧ events.read then
        ((conn.handleClientRead o input store).1.afterRead o events input,
          (conn.handleClientRead o input store).2)
      else
        (conn.afterRead o events input, store) := by
  unfold handleEvent
  by_cases herror : events.error = true
  · rw [if_pos herror, if_pos herror]
  · rw [if_neg herror, if_neg herror]
    by_cases hread : state = .running ∧ events.read = true
    · simp only [if_pos hread]
      rfl
    · simp only [if_neg hread]
      rfl

/-- While the reactor is not running, a ready event only delivers. -/
theorem delivers_handleEvent {Q : ExpirationQueue} (o : NetworkOptions) {state : ServerState}
    (h : state ≠ .running) (events : IoEvent) (input : IoInput Q) (store : Store Q)
    (conn : Connection) :
    Delivers conn (conn.handleEvent o state events input store).1.1 ∧
      (conn.handleEvent o state events input store).2 = store := by
  rw [handleEvent_cases]
  split
  · exact ⟨Delivers.markClosed conn rfl (.inr (.inl rfl)), rfl⟩
  · rw [if_neg fun hread => h hread.1]
    exact ⟨delivers_afterRead o events input conn, rfl⟩

end Connection

end TinyKv
