import TinyKv.Net.ResponseStream

/-!
# The end of a client's input

When `recv` returns 0 the handler is about to keep a connection with pending output
open until that output is sent. It calls `MarkClosed` first, which discards the output.
-/

namespace TinyKv

open Foundation

variable {Q : ExpirationQueue}

namespace Connection

/-- `HandleClientRead` calls `recv` on the connection, and `recv` returns 0. -/
structure ObservesEnd (conn : Connection) (o : NetworkOptions) (input : IoInput Q) : Prop where
  opened : conn.closed = false
  unpaused : conn.readPaused = false
  serving : conn.closeAfterWrite = false
  room : conn.readBuffer.length < o.maxReadBufferBytes
  ended : input.recv.result = .bytes []

/-- The read handler closes the connection whatever is pending. -/
theorem handleClientRead_end {conn : Connection} {o : NetworkOptions} {input : IoInput Q}
    (h : conn.ObservesEnd o input) (store : Store Q) :
    (conn.handleClientRead o input store).1.closed = true := by
  unfold handleClientRead
  rw [if_neg (by simp [h.opened, h.unpaused, h.serving]),
    if_neg (Nat.not_le.mpr h.room), h.ended]
  simp only [List.take_nil, if_true]
  rfl

end Connection

namespace Session

/-- What is promised at the end of input: pending output is kept and the connection
closes only when it has been sent, an I/O error, the deadline or a forced stop apart; a
connection without pending output closes at once. -/
def EndKept (o : NetworkOptions) (s : Session Q) (after : Connection) : Prop :=
  (s.conn.pending ≠ [] →
    after.pending = s.conn.pending ∧ after.readPaused = true ∧ after.closeAfterWrite = true ∧
    after.closed = false ∧
    ∀ events : List (SessionEvent Q),
      let final := ({ s with conn := after }.run o events).conn
      final.closed = true →
        final.trace.sent = s.conn.trace.sent ++ s.conn.pending ∨
        ∃ cause ∈ final.trace.causes,
          cause ∈ [CloseCause.errorEvent, .sendFailed, .deadline, .forceStop]) ∧
  (s.conn.pending = [] → after.closed = true)

/-- The end of input keeps its promise exactly when nothing is pending. -/
theorem endKept_iff (o : NetworkOptions) (fd : Int) (store : Store Q)
    (events : List (SessionEvent Q)) (input : IoInput Q) :
    let s := (start fd store).run o events
    s.conn.ObservesEnd o input →
      (EndKept o s (s.conn.handleClientRead o input s.store).1 ↔ s.conn.pending = []) := by
  intro s hend
  have hclosed := Connection.handleClientRead_end hend s.store
  constructor
  · intro hkept
    by_contra hpending
    obtain ⟨-, -, -, hopen, -⟩ := hkept.1 hpending
    rw [hclosed] at hopen
    cases hopen
  · intro hnil
    exact ⟨fun hpending => absurd hnil hpending, fun _ => hclosed⟩

/-- A client whose PING has been answered, and the response sent. -/
def servedPing : List (SessionEvent sortedExpirations) :=
  [readable (FrameCodec.frameOf (ascii "PING")),
    .ready { write := true } ⟨.returned .wouldBlock, .returned (.accepted 9), quiet⟩ true]

theorem endKept_iff_served :
    let s := fresh.run {} servedPing
    s.conn.trace.sent = FrameCodec.frameOf (ascii "+PONG") ∧
      EndKept {} s (s.conn.handleClientRead {} (reading []) s.store).1 := by
  refine ⟨by decide, ?_⟩
  exact (endKept_iff {} 5 Store.empty servedPing (reading [])
    ⟨by decide, by decide, by decide, by decide, rfl⟩).mpr (by decide)

/-- A PING whose response is pending when the client shuts down its side. -/
theorem endKept_fails_after_ping :
    let s := fresh.run {} [readable (FrameCodec.frameOf (ascii "PING"))]
    s.conn.ObservesEnd {} (reading []) ∧
      ¬ EndKept {} s (s.conn.handleClientRead {} (reading []) s.store).1 := by
  refine ⟨⟨rfl, rfl, rfl, by decide, rfl⟩, fun hkept => ?_⟩
  obtain ⟨-, -, -, hopen, -⟩ := hkept.1 (by decide)
  revert hopen
  decide

end Session

end TinyKv
