import TinyKv.Net.OutputQueue
import TinyKv.Net.Requests
import TinyKv.Net.Session
import Mathlib.Logic.Relation

/-!
# The output memory of a connection

A connection touches its write buffer in three ways only: it appends a response that
passed the limit check, consumes what `send` took, and clears. So the buffer stays
within the hard limit, and its storage within what the thresholds of the compaction
allow for it.
-/

namespace TinyKv

open Foundation FrameCodec

variable {Q : ExpirationQueue}

namespace OutputBuffer

/-- A change of a buffer that keeps to a hard limit. -/
inductive LimitedStep (hardLimit : Nat) : OutputBuffer → OutputBuffer → Prop
  | append (b : OutputBuffer) (bytes : Bytes) (h : b.size + bytes.length ≤ hardLimit) :
      LimitedStep hardLimit b (b.append bytes)
  | consume (b : OutputBuffer) (bytes : Nat) (h : bytes ≤ b.size) :
      LimitedStep hardLimit b (b.advance bytes h)
  | clear (b : OutputBuffer) : LimitedStep hardLimit b b.clear

/-- Any number of such changes. -/
abbrev Limited (hardLimit : Nat) : OutputBuffer → OutputBuffer → Prop :=
  Relation.ReflTransGen (LimitedStep hardLimit)

/-- The pending bytes are within the limit and the consumed prefix is reclaimed. -/
structure Within (hardLimit : Nat) (b : OutputBuffer) : Prop where
  size_le : b.size ≤ hardLimit
  reclaimed : b.Reclaimed

theorem within_empty (hardLimit : Nat) : Within hardLimit empty :=
  ⟨Nat.zero_le _, reclaimed_empty⟩

theorem Within.limitedStep {hardLimit : Nat} {b b' : OutputBuffer} (h : b.Within hardLimit)
    (hstep : LimitedStep hardLimit b b') : b'.Within hardLimit := by
  cases hstep with
  | append bytes hroom =>
      refine ⟨?_, h.reclaimed.append bytes⟩
      rwa [size_eq, data_append, List.length_append, ← size_eq]
  | consume bytes hle =>
      refine ⟨?_, reclaimed_advance b bytes hle⟩
      rw [size_eq, data_advance, List.length_drop, ← size_eq]
      exact (Nat.sub_le _ _).trans h.size_le
  | clear => exact within_empty hardLimit

theorem Within.limited {hardLimit : Nat} {b b' : OutputBuffer} (h : b.Within hardLimit)
    (hsteps : Limited hardLimit b b') : b'.Within hardLimit := by
  induction hsteps with
  | refl => exact h
  | tail _ hstep ih => exact ih.limitedStep hstep

theorem Within.storage_le {hardLimit : Nat} {b : OutputBuffer} (h : b.Within hardLimit) :
    b.storage.length ≤ max (hardLimit + 65535) (2 * hardLimit) := by
  have hstorage := h.reclaimed.storage_le
  have hsize := h.size_le
  omega

end OutputBuffer

namespace Connection

/-- From one connection to another, the write buffer has kept to the hard limit. -/
def Buffers (o : NetworkOptions) (before after : Connection) : Prop :=
  OutputBuffer.Limited o.writeHardLimitBytes before.writeBuffer after.writeBuffer

theorem Buffers.of_eq {o : NetworkOptions} {a b : Connection}
    (h : b.writeBuffer = a.writeBuffer) : Buffers o a b := by
  rw [Buffers, h]

theorem Buffers.trans {o : NetworkOptions} {a b c : Connection} (hab : Buffers o a b)
    (hbc : Buffers o b c) : Buffers o a c :=
  Relation.ReflTransGen.trans hab hbc

theorem buffers_markClosed (o : NetworkOptions) (conn : Connection) (cause : CloseCause) :
    Buffers o conn (conn.markClosed cause) :=
  Relation.ReflTransGen.single (.clear conn.writeBuffer)

theorem buffers_updateReadBackPressure (o : NetworkOptions) (conn : Connection) :
    Buffers o conn (conn.updateReadBackPressure o) := by
  obtain ⟨paused, calls, heq, -⟩ := updateReadBackPressure_eq o conn
  exact .of_eq (by rw [heq])

/-- The limit check comes before the append. -/
theorem buffers_queueResponse (o : NetworkOptions) (conn : Connection) (response : Bytes) :
    Buffers o conn (conn.queueResponse o response).2 := by
  rcases queueResponse_cases o conn response with
    ⟨cause, calls, -, -, heq⟩ | ⟨paused, calls, -, hroom, -, heq⟩
  · rw [heq]
    exact buffers_markClosed o _ cause
  · rw [heq]
    have hlimit : conn.writeBuffer.size + (frameOf response).length ≤ o.writeHardLimitBytes := by
      rwa [OutputBuffer.size_eq]
    exact Relation.ReflTransGen.single (.append conn.writeBuffer (frameOf response) hlimit)

theorem buffers_processPayload (o : NetworkOptions) (ambient : Ambient Q) (store : Store Q)
    (conn : Connection) (payload : Bytes) :
    Buffers o conn (conn.processPayload o ambient store payload).2.1 := by
  obtain ⟨before, -, heq⟩ := processPayload_eq o ambient store conn payload
  rw [heq]
  generalize payloadResult ambient store payload = result
  have hqueue := buffers_queueResponse o (conn.withExecuted payload result.1 before) result.1
  generalize (conn.withExecuted payload result.1 before).queueResponse o result.1 = queued
    at hqueue ⊢
  obtain ⟨_ | _, after⟩ := queued
  · exact hqueue
  · dsimp only
    split
    · exact hqueue
    · exact hqueue

theorem buffers_processPayloads (o : NetworkOptions) (payloads : List Bytes)
    (ambient : Nat → Ambient Q) (store : Store Q) (conn : Connection) :
    Buffers o conn (conn.processPayloads o ambient store payloads).1 := by
  induction payloads generalizing ambient store conn with
  | nil => exact .of_eq rfl
  | cons payload rest ih =>
      have hone := buffers_processPayload o (ambient 0) store conn payload
      rw [processPayloads]
      generalize conn.processPayload o (ambient 0) store payload = result at hone ⊢
      obtain ⟨continues, mid, store'⟩ := result
      cases continues with
      | false => exact hone
      | true => exact hone.trans (ih (fun i => ambient (i + 1)) store' mid)

theorem buffers_finalResponse (o : NetworkOptions) (conn : Connection) (response : Bytes) :
    Buffers o conn (conn.finalResponse o response) := by
  have hqueue := buffers_queueResponse o conn response
  unfold finalResponse
  split
  · exact hqueue
  · exact hqueue

theorem buffers_rejectOversizedReadBuffer (o : NetworkOptions) (conn : Connection) :
    Buffers o conn (conn.rejectOversizedReadBuffer o) := by
  have hqueue := buffers_queueResponse o conn (ascii "-ERR request buffer too large")
  rw [rejectOversizedReadBuffer_eq]
  split
  · exact hqueue
  · exact hqueue.trans (buffers_markClosed o _ .oversized)

theorem buffers_receiveBytes (o : NetworkOptions) (ambient : Nat → Ambient Q)
    (store : Store Q) (conn : Connection) (bytes : Bytes) :
    Buffers o conn (conn.receiveBytes o ambient store bytes).1 := by
  cases hrejected : (frameParser.drain (conn.readBuffer ++ bytes)).rejected with
  | true =>
      rw [receiveBytes_rejected hrejected]
      exact buffers_finalResponse o (conn.withInput bytes .onProtocolError) _
  | false =>
      rw [receiveBytes_accepted hrejected]
      exact buffers_processPayloads o _ ambient store (conn.withInput bytes _)

theorem buffers_receiveEnd (o : NetworkOptions) (conn : Connection) :
    Buffers o conn conn.receiveEnd := by
  rw [receiveEnd_eq]
  exact (buffers_markClosed o conn .endOfInput).trans (buffers_markClosed o _ .endOfInput)

theorem buffers_handleClientRead (o : NetworkOptions) (input : IoInput Q) (store : Store Q)
    (conn : Connection) : Buffers o conn (conn.handleClientRead o input store).1 := by
  unfold handleClientRead
  split
  · exact .of_eq rfl
  split
  · exact buffers_rejectOversizedReadBuffer o conn
  cases input.recv.result with
  | bytes ready =>
      simp only
      split
      · exact buffers_receiveEnd o conn
      · exact buffers_receiveBytes o input.ambient store conn _
  | wouldBlock => exact .of_eq rfl
  | failed => exact buffers_markClosed o conn .recvFailed

theorem buffers_sendBytes (o : NetworkOptions) (conn : Connection) (bytes : Nat)
    (h : bytes ≤ conn.writeBuffer.size) : Buffers o conn (conn.sendBytes o bytes h) := by
  have hsent : Buffers o conn { conn with
      trace.sent := conn.trace.sent ++ conn.writeBuffer.data.take bytes
      writeBuffer := conn.writeBuffer.advance bytes h
      calls := conn.calls ++ [MetricCall.addBytesSent bytes] } :=
    Relation.ReflTransGen.single (.consume conn.writeBuffer bytes h)
  have hupdated := hsent.trans (buffers_updateReadBackPressure o _)
  unfold sendBytes
  simp only
  split
  · exact hupdated.trans (buffers_markClosed o _ .flushed)
  · exact hupdated

theorem buffers_handleClientWrite (o : NetworkOptions) (input : IoInput Q)
    (conn : Connection) : Buffers o conn (conn.handleClientWrite o input) := by
  have hupdate := buffers_updateReadBackPressure o conn
  unfold handleClientWrite
  split
  · exact .of_eq rfl
  split
  · simp only
    split
    · exact hupdate.trans (buffers_markClosed o _ .flushed)
    · exact hupdate
  simp only
  cases input.send.result with
  | accepted bytes =>
      simp only
      split
      · exact buffers_sendBytes o conn _ _
      · exact buffers_markClosed o conn .sendFailed
  | wouldBlock => exact .of_eq rfl
  | failed => exact buffers_markClosed o conn .sendFailed

theorem buffers_hangUp (o : NetworkOptions) (conn : Connection) :
    Buffers o conn conn.hangUp := by
  unfold hangUp
  simp only
  split
  · exact buffers_markClosed o _ .hangup
  · exact .of_eq rfl

theorem buffers_refreshInterest (o : NetworkOptions) (conn : Connection) :
    Buffers o conn (conn.refreshInterest o).1 := by
  have hupdate := buffers_updateReadBackPressure o conn
  unfold refreshInterest
  split
  · exact .of_eq rfl
  simp only
  split
  · exact hupdate.trans (buffers_markClosed o _ .flushed)
  split
  · exact hupdate.trans (buffers_markClosed o _ .noInterest)
  split
  · exact hupdate
  · exact hupdate

theorem buffers_afterRead (o : NetworkOptions) (events : IoEvent) (input : IoInput Q)
    (conn : Connection) : Buffers o conn (conn.afterRead o events input).1 := by
  unfold afterRead
  have hwrite : Buffers o conn
      (if !conn.closed && events.write then conn.handleClientWrite o input else conn) :=
    iteInduction (fun _ => buffers_handleClientWrite o input conn) fun _ => .of_eq rfl
  generalize (if !conn.closed && events.write then conn.handleClientWrite o input else conn) =
    written at hwrite
  have hhang : Buffers o written
      (if !written.closed && events.hangup then written.hangUp else written) :=
    iteInduction (fun _ => buffers_hangUp o written) fun _ => .of_eq rfl
  simp only
  generalize (if !written.closed && events.hangup then written.hangUp else written) = hung
    at hhang
  refine hwrite.trans (hhang.trans ?_)
  split
  · exact buffers_refreshInterest o hung
  · exact .of_eq rfl

theorem buffers_handleEvent (o : NetworkOptions) (state : ServerState) (events : IoEvent)
    (input : IoInput Q) (store : Store Q) (conn : Connection) :
    Buffers o conn (conn.handleEvent o state events input store).1.1 := by
  rw [handleEvent_cases]
  split
  · exact buffers_markClosed o conn .errorEvent
  split
  · exact (buffers_handleClientRead o input store conn).trans
      (buffers_afterRead o events input _)
  · exact buffers_afterRead o events input conn

theorem buffers_beginDrain (o : NetworkOptions) (conn : Connection) :
    Buffers o conn (conn.beginDrain o).1 := by
  unfold beginDrain
  simp only
  split
  · exact buffers_markClosed o _ .drained
  · exact buffers_refreshInterest o
      { conn with readPaused := true, closeAfterWrite := true }

/-- The limit check of `QueueResponse`, with its subtraction of unsigned values checked. -/
def overLimit (hardLimit pendingBytes frameSize : Nat) : Except Fault Bool :=
  if pendingBytes > hardLimit then
    pure true
  else do
    let room ← subtract hardLimit pendingBytes
    pure (decide (frameSize > room))

/-- The first half of the check guards the subtraction in the second. -/
theorem overLimit_eq (hardLimit pendingBytes frameSize : Nat) :
    overLimit hardLimit pendingBytes frameSize =
      .ok (decide (pendingBytes > hardLimit ∨ frameSize > hardLimit - pendingBytes)) := by
  unfold overLimit
  split
  · next hover => simp [hover]
  · next hwithin =>
    rw [KvStore.subtract_of_le (not_lt.mp hwithin)]
    simp [hwithin]

end Connection

namespace Session

theorem within_step (o : NetworkOptions) (s : Session Q)
    (h : s.conn.writeBuffer.Within o.writeHardLimitBytes) (event : SessionEvent Q) :
    (s.step o event).conn.writeBuffer.Within o.writeHardLimitBytes := by
  rcases step_conn o s event with heq | ⟨reason, heq⟩ | ⟨registered, heq⟩ |
    ⟨events, input, registered, -, heq⟩
  · rwa [heq]
  · rw [heq]
    exact h.limited (Connection.buffers_markClosed o s.conn reason.cause)
  · rw [heq]
    exact h.limited (Connection.buffers_beginDrain o s.conn)
  · rw [heq]
    exact h.limited (Connection.buffers_handleEvent o s.phase events input s.store s.conn)

theorem within_run (o : NetworkOptions) (fd : Int) (store : Store Q)
    (events : List (SessionEvent Q)) :
    ((start fd store).run o events).conn.writeBuffer.Within o.writeHardLimitBytes :=
  (machine o).run_invariant (I := fun s => s.conn.writeBuffer.Within o.writeHardLimitBytes)
    (fun s hs event _ => within_step o s hs event) (OutputBuffer.within_empty _)

/-- After every run of buffer operations the consumed prefix is below the threshold or
below half of the storage, so the storage is bounded by the pending bytes; in every
reachable state of a connection the pending bytes are within the hard limit, the
subtraction in the limit check does not underflow, and the storage is bounded by the
hard limit. -/
theorem output_memory_bounded (o : NetworkOptions) (fd : Int) (store : Store Q)
    (events : List (SessionEvent Q)) (ops : List OutputBuffer.Op) :
    let b := (OutputBuffer.machine.run .empty ops).2
    let conn := ((start fd store).run o events).conn
    (b.readPos < 64 * 1024 ∨ b.readPos < b.storage.length / 2) ∧
    b.storage.length ≤ max (b.size + 65535) (2 * b.size) ∧
    conn.writeBuffer.size ≤ o.writeHardLimitBytes ∧
    (∀ pendingBytes frameSize,
      Connection.overLimit o.writeHardLimitBytes pendingBytes frameSize =
        .ok (decide (pendingBytes > o.writeHardLimitBytes ∨
          frameSize > o.writeHardLimitBytes - pendingBytes))) ∧
    conn.writeBuffer.storage.length ≤
      max (o.writeHardLimitBytes + 65535) (2 * o.writeHardLimitBytes) := by
  intro b conn
  have hwithin : conn.writeBuffer.Within o.writeHardLimitBytes := within_run o fd store events
  have hreclaimed : b.Reclaimed := OutputBuffer.reclaimed_run ops
  exact ⟨hreclaimed, hreclaimed.storage_le, hwithin.size_le,
    Connection.overLimit_eq o.writeHardLimitBytes, hwithin.storage_le⟩

end Session

end TinyKv
