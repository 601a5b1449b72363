import TinyKv.Config.ConfigLoader
import TinyKv.Net.Requests

/-!
# Backpressure

Reading is paused between ready events, not within one: a batch of payloads is executed
to its end whatever the write buffer holds. So the high watermark can be passed by the
responses of one batch, and only the hard limit bounds the buffer for every batch.
-/

namespace TinyKv

open Foundation FrameCodec

variable {Q : ExpirationQueue}

/-- The size of the longest frame. -/
def frameLimit : Nat := headerSize + maxFrameSize

/-- The most that can be pending while reading is not paused. -/
def NetworkOptions.readTop (o : NetworkOptions) : Nat :=
  if o.writeLowWatermarkBytes < o.writeHighWatermarkBytes then o.writeHighWatermarkBytes - 1
  else o.writeHighWatermarkBytes

namespace Connection

/-- A connection that goes on to read has at most the read top pending. -/
def PauseKept (o : NetworkOptions) (conn : Connection) : Prop :=
  conn.Reading → conn.pending.length ≤ o.readTop

theorem readTop_bounds {o : NetworkOptions} (ho : o.Accepted) :
    o.writeLowWatermarkBytes ≤ o.readTop ∧ o.writeHighWatermarkBytes ≤ o.readTop + 1 ∧
      o.readTop ≤ o.writeHighWatermarkBytes := by
  have := ho.low_le_high
  unfold NetworkOptions.readTop
  split <;> omega

/-- `UpdateReadBackPressure` establishes the read top by itself. -/
theorem pauseKept_updateReadBackPressure {o : NetworkOptions} (ho : o.Accepted)
    (conn : Connection) : PauseKept o (conn.updateReadBackPressure o) := by
  obtain ⟨hlow, hhigh, -⟩ := readTop_bounds ho
  intro hreading
  have hopen : (conn.closeAfterWrite || conn.closed) = false := by
    simpa using And.intro hreading.serving hreading.opened
  have hunpaused := hreading.unpaused
  rw [pending, updateReadBackPressure_pending, ← OutputBuffer.size_eq]
  unfold updateReadBackPressure at hunpaused
  rw [if_neg (by simp [hopen])] at hunpaused
  simp only at hunpaused
  split at hunpaused
  · next hpaused =>
    split at hunpaused
    · omega
    · rw [hpaused] at hunpaused
      cases hunpaused
  · split at hunpaused
    · cases hunpaused
    · omega

theorem pauseKept_of_closing {conn : Connection} (o : NetworkOptions)
    (h : conn.closed = true ∨ conn.closeAfterWrite = true) : PauseKept o conn := by
  rintro ⟨hopen, -, hserving⟩
  obtain h | h := h
  · rw [hopen] at h
    cases h
  · rw [hserving] at h
    cases h

/-- The write buffer holds at most the read top and `k` frames, and no response has been
refused for the hard limit if that leaves room for `n` frames. -/
structure Bounded (o : NetworkOptions) (n k : Nat) (conn : Connection) : Prop where
  hard : conn.closed = false → conn.pending.length ≤ o.writeHardLimitBytes
  top : conn.closed = false → conn.pending.length ≤ o.readTop + k * frameLimit
  fast : o.readTop + n * frameLimit ≤ o.writeHardLimitBytes → .slowClient ∉ conn.trace.causes

theorem Bounded.mono {o : NetworkOptions} {n k m : Nat} {conn : Connection}
    (h : conn.Bounded o n k) (hkm : k ≤ m) : conn.Bounded o n m := by
  have hmul : k * frameLimit ≤ m * frameLimit := Nat.mul_le_mul_right _ hkm
  exact ⟨h.hard, fun hopen => (h.top hopen).trans (by omega), h.fast⟩

theorem Bounded.markClosed {o : NetworkOptions} {n k : Nat} {conn : Connection}
    (h : conn.Bounded o n k) {cause : CloseCause} (hcause : cause ≠ .slowClient) :
    (conn.markClosed cause).Bounded o n k := by
  refine ⟨nofun, nofun, fun hn hmem => ?_⟩
  obtain hmem | hmem := List.mem_append.mp hmem
  · exact h.fast hn hmem
  · exact hcause (List.mem_singleton.mp hmem).symm

theorem length_frameOf_le {response : Bytes} (h : response.length ≤ maxFrameSize) :
    (frameOf response).length ≤ frameLimit := by
  rw [length_frameOf, frameLimit]
  omega

/-- Queueing one more response takes one more frame. -/
theorem Bounded.queueResponse {o : NetworkOptions} {n k : Nat} {conn : Connection}
    (h : conn.Bounded o n k) (hopen : conn.closed = false) (hk : k + 1 ≤ n)
    (response : Bytes) : (conn.queueResponse o response).2.Bounded o n (k + 1) := by
  have hbefore := h.top hopen
  have hsucc : (k + 1) * frameLimit = k * frameLimit + frameLimit := Nat.succ_mul ..
  have hmul : (k + 1) * frameLimit ≤ n * frameLimit := Nat.mul_le_mul_right _ hk
  rcases queueResponse_cases o conn response with
    ⟨cause, calls, hrefusal, -, heq⟩ | ⟨paused, calls, hfits, hroom, -, heq⟩
  · rw [heq]
    refine ⟨nofun, nofun, fun hn hmem => ?_⟩
    obtain hmem | hmem := List.mem_append.mp hmem
    · exact h.fast hn hmem
    · obtain ⟨rfl, hfits, hover⟩ | ⟨rfl, -⟩ := hrefusal
      · have := length_frameOf_le hfits
        omega
      · cases List.mem_singleton.mp hmem
  · rw [heq]
    have hlen : (conn.withResponse response paused calls).pending.length =
        conn.pending.length + (frameOf response).length := by
      simp [withResponse, pending]
    have := length_frameOf_le hfits
    refine ⟨fun _ => hlen ▸ hroom, fun _ => ?_, h.fast⟩
    rw [hlen]
    omega

theorem pauseKept_queueResponse {o : NetworkOptions} (ho : o.Accepted) (conn : Connection)
    (response : Bytes) : PauseKept o (conn.queueResponse o response).2 := by
  unfold queueResponse
  split
  · exact pauseKept_of_closing o (.inl rfl)
  simp only
  split
  · exact pauseKept_of_closing o (.inl rfl)
  · exact pauseKept_updateReadBackPressure ho _

theorem bounded_processPayload {o : NetworkOptions} (ho : o.Accepted) {n k : Nat}
    {conn : Connection} (h : conn.Bounded o n k) (hopen : conn.closed = false)
    (hk : k + 1 ≤ n) (ambient : Ambient Q) (store : Store Q) (payload : Bytes) :
    (conn.processPayload o ambient store payload).2.1.Bounded o n (k + 1) ∧
      PauseKept o (conn.processPayload o ambient store payload).2.1 := by
  obtain ⟨before, -, hqueue⟩ := processPayload_eq o ambient store conn payload
  generalize payloadResult ambient store payload = result at hqueue
  have hexecuted : (conn.withExecuted payload result.1 before).Bounded o n k :=
    ⟨h.hard, h.top, h.fast⟩
  have hbounded := hexecuted.queueResponse hopen hk result.1
  have hpause := pauseKept_queueResponse ho (conn.withExecuted payload result.1 before) result.1
  rw [hqueue]
  generalize (conn.withExecuted payload result.1 before).queueResponse o result.1 = queued
    at hbounded hpause ⊢
  obtain ⟨_ | _, after⟩ := queued
  · exact ⟨hbounded, hpause⟩
  · dsimp only
    split
    · exact ⟨⟨hbounded.hard, hbounded.top, hbounded.fast⟩, pauseKept_of_closing o (.inr rfl)⟩
    · exact ⟨hbounded, hpause⟩

/-- A batch takes at most one frame for each payload; by induction on the batch. -/
theorem bounded_processPayloads {o : NetworkOptions} (ho : o.Accepted) {n : Nat}
    (payloads : List Bytes) (ambient : Nat → Ambient Q) (store : Store Q) {k : Nat}
    {conn : Connection} (h : conn.Bounded o n k) (hpause : PauseKept o conn)
    (hserving : conn.closed = false ∧ conn.closeAfterWrite = false)
    (hk : k + payloads.length ≤ n) :
    (conn.processPayloads o ambient store payloads).1.Bounded o n (k + payloads.length) ∧
      PauseKept o (conn.processPayloads o ambient store payloads).1 := by
  induction payloads generalizing ambient store k conn with
  | nil => exact ⟨h, hpause⟩
  | cons payload rest ih =>
      rw [List.length_cons] at hk ⊢
      obtain ⟨hbounded, hpause'⟩ := bounded_processPayload ho h hserving.1 (by omega)
        (ambient 0) store payload
      obtain ⟨hserved, hnext⟩ :=
        served_processPayload o (ambient 0) store hserving.1 hserving.2 payload
      unfold processPayloads
      generalize conn.processPayload o (ambient 0) store payload = result
        at hbounded hpause' hserved hnext ⊢
      obtain ⟨continues, mid, store'⟩ := result
      dsimp only at hbounded hpause' hserved hnext
      cases continues with
      | false => exact ⟨hbounded.mono (by omega), hpause'⟩
      | true =>
          obtain ⟨hmid, hquit⟩ := hnext.mp rfl
          obtain ⟨-, -, -, -, hclose⟩ := hserved.outcome.resolve_left (not_refused hmid)
          obtain ⟨hrest, hpauseRest⟩ := ih (fun i => ambient (i + 1)) store' hbounded hpause'
            ⟨hmid, by simpa [hquit] using hclose⟩ (by omega)
          exact ⟨hrest.mono (by omega), hpauseRest⟩

/-- A connection that serves waits for the rest of a frame. -/
def Waiting (conn : Connection) : Prop :=
  conn.closed = false → conn.closeAfterWrite = false → frameParser.next conn.readBuffer = .more

theorem Waiting.delivers {a b : Connection} (h : a.Waiting) (hab : Delivers a b) :
    b.Waiting := by
  intro hopen hserving
  obtain ⟨ha, hbuffer, hflag⟩ := hab.opened hopen
  rw [hbuffer]
  refine h ha ?_
  by_contra hclose
  rw [hflag (Bool.not_eq_false _ ▸ hclose)] at hserving
  cases hserving

theorem Received.waiting {a b : Connection} {bytes : Bytes} (h : Received a b bytes) :
    b.Waiting := by
  intro hopen hserving
  obtain ⟨-, -, hbuffer, hcase⟩ := h.outcome.resolve_left (not_refused hopen)
  split at hcase
  · rw [hcase.2] at hserving
    cases hserving
  · next haccepted =>
    rw [hbuffer, frameParser.next_drain_rest, if_neg haccepted]

/-- The invariant of the connections: between events the write buffer is bounded by the
largest batch so far. -/
structure Steady (o : NetworkOptions) (conn : Connection) : Prop where
  waiting : conn.Waiting
  pause : PauseKept o conn
  batches : ∀ k, .addFramesReceived k ∈ conn.calls → k ≤ 4096
  bounded : ∀ n, 1 ≤ n → (∀ k, .addFramesReceived k ∈ conn.calls → k ≤ n) → conn.Bounded o n n

theorem steady_accepted (o : NetworkOptions) (fd : Int) : (accepted fd).Steady o where
  waiting _ _ := rfl
  pause _ := Nat.zero_le _
  batches k hk := by cases hk
  bounded n _ _ := ⟨fun _ => Nat.zero_le _, fun _ => Nat.zero_le _, fun _ => by simp [accepted]⟩

theorem Delivers.bounded {o : NetworkOptions} {n : Nat} {a b : Connection} (hab : Delivers a b)
    (h : a.Bounded o n n) : b.Bounded o n n := by
  obtain ⟨bytes, -, -, hopen, -, -⟩ := hab.delivered
  have hlen : b.closed = false → b.pending.length ≤ a.pending.length := by
    intro hb
    rw [hopen hb, List.length_append]
    omega
  refine ⟨fun hb => (hlen hb).trans (h.hard (hab.opened hb).1),
    fun hb => (hlen hb).trans (h.top (hab.opened hb).1), fun hn hmem => ?_⟩
  obtain hmem | hmem := hab.newCauses _ hmem
  · exact h.fast hn hmem
  · cases hmem

/-- Steps that only deliver stay steady, if they end with a look at the watermarks. -/
theorem Steady.delivers {o : NetworkOptions} {a b : Connection} (h : a.Steady o)
    (hab : Delivers a b) (hpause : PauseKept o b) : b.Steady o where
  waiting := h.waiting.delivers hab
  pause := hpause
  batches k hk := h.batches k (hab.frames k hk)
  bounded n hn hbatch :=
    hab.bounded (h.bounded n hn fun k hk => hbatch k (hab.calls.subset hk))

/-! ### Looks at the watermarks -/

theorem pauseKept_handleClientWrite {o : NetworkOptions} (ho : o.Accepted) {conn : Connection}
    (h : PauseKept o conn) (input : IoInput Q) :
    PauseKept o (conn.handleClientWrite o input) := by
  unfold handleClientWrite
  split
  · exact h
  split
  · simp only
    split
    · exact pauseKept_of_closing o (.inl rfl)
    · exact pauseKept_updateReadBackPressure ho conn
  simp only
  cases input.send.result with
  | accepted bytes =>
      simp only
      split
      · unfold sendBytes
        simp only
        split
        · exact pauseKept_of_closing o (.inl rfl)
        · exact pauseKept_updateReadBackPressure ho _
      · exact pauseKept_of_closing o (.inl rfl)
  | wouldBlock => exact h
  | failed => exact pauseKept_of_closing o (.inl rfl)

theorem pauseKept_hangUp (o : NetworkOptions) (conn : Connection) :
    PauseKept o conn.hangUp := by
  unfold hangUp
  simp only
  split
  · exact pauseKept_of_closing o (.inl rfl)
  · exact pauseKept_of_closing o (.inr rfl)

theorem pauseKept_refreshInterest {o : NetworkOptions} (ho : o.Accepted) {conn : Connection}
    (h : PauseKept o conn) : PauseKept o (conn.refreshInterest o).1 := by
  have hupdate := pauseKept_updateReadBackPressure ho conn
  unfold refreshInterest
  split
  · exact h
  simp only
  split
  · exact pauseKept_of_closing o (.inl rfl)
  split
  · exact pauseKept_of_closing o (.inl rfl)
  split
  · exact hupdate
  · exact hupdate

theorem pauseKept_afterRead {o : NetworkOptions} (ho : o.Accepted) {conn : Connection}
    (h : PauseKept o conn) (events : IoEvent) (input : IoInput Q) :
    PauseKept o (conn.afterRead o events input).1 := by
  unfold afterRead
  have hwrite : PauseKept o
      (if !conn.closed && events.write then conn.handleClientWrite o input else conn) :=
    iteInduction (fun _ => pauseKept_handleClientWrite ho h input) fun _ => h
  generalize (if !conn.closed && events.write then conn.handleClientWrite o input else conn) =
    written at hwrite
  have hhang : PauseKept o
      (if !written.closed && events.hangup then written.hangUp else written) :=
    iteInduction (fun _ => pauseKept_hangUp o written) fun _ => hwrite
  simp only
  generalize (if !written.closed && events.hangup then written.hangUp else written) = hung
    at hhang
  split
  · exact pauseKept_refreshInterest ho hhang
  · exact hhang

/-! ### Reading -/

theorem Steady.markClosed {o : NetworkOptions} {conn : Connection} (h : conn.Steady o)
    {cause : CloseCause} (hcause : cause ≠ .slowClient) : (conn.markClosed cause).Steady o where
  waiting := nofun
  pause := pauseKept_of_closing o (.inl rfl)
  batches := h.batches
  bounded n hn hbatch := (h.bounded n hn hbatch).markClosed hcause

/-- A connection that goes on to read has room for a whole batch. -/
theorem Bounded.of_reading {o : NetworkOptions} {n : Nat} {conn : Connection}
    (h : conn.Bounded o n n) (hpause : PauseKept o conn) (hreading : conn.Reading) :
    conn.Bounded o n 0 :=
  ⟨h.hard, fun _ => by simpa using hpause hreading, h.fast⟩

/-- A final error response takes one frame. -/
theorem bounded_finalResponse {o : NetworkOptions} {n : Nat} {conn : Connection}
    (h : conn.Bounded o n 0) (hn : 1 ≤ n) (hopen : conn.closed = false) (final : Bytes) :
    (conn.queueResponse o final).2.Bounded o n n :=
  (h.queueResponse hopen hn final).mono hn

theorem steady_rejectOversizedReadBuffer {o : NetworkOptions} {conn : Connection}
    (h : conn.Steady o) (hreading : conn.Reading) :
    (conn.rejectOversizedReadBuffer o).Steady o := by
  have hgrows := grows_queueResponse o conn (ascii "-ERR request buffer too large")
  have hframes : ∀ n, .addFramesReceived n ∈
      (conn.queueResponse o (ascii "-ERR request buffer too large")).2.calls →
      .addFramesReceived n ∈ conn.calls := by
    intro n hn
    rcases queueResponse_cases o conn (ascii "-ERR request buffer too large") with
      ⟨cause, calls, -, hcalls, heq⟩ | ⟨paused, calls, -, -, hcalls, heq⟩ <;>
    · rw [heq] at hn
      exact (List.mem_append.mp hn).resolve_right (hcalls.not_mem n)
  have hbounded : ∀ n, 1 ≤ n → (∀ k, .addFramesReceived k ∈
      (conn.queueResponse o (ascii "-ERR request buffer too large")).2.calls → k ≤ n) →
      (conn.queueResponse o (ascii "-ERR request buffer too large")).2.Bounded o n n := by
    intro n hn hbatch
    exact bounded_finalResponse ((h.bounded n hn fun k hk =>
      hbatch k (hgrows.calls.subset hk)).of_reading h.pause hreading) hn hreading.opened _
  rw [rejectOversizedReadBuffer_eq]
  split
  · exact ⟨nofun, pauseKept_of_closing o (.inr rfl), fun k hk => h.batches k (hframes k hk),
      fun n hn hbatch => ⟨(hbounded n hn hbatch).hard, (hbounded n hn hbatch).top,
        (hbounded n hn hbatch).fast⟩⟩
  · exact ⟨nofun, pauseKept_of_closing o (.inl rfl), fun k hk => h.batches k (hframes k hk),
      fun n hn hbatch => (hbounded n hn hbatch).markClosed (by decide)⟩

/-- One `recv` result: a batch as long as the frames it completes, or an error response. -/
theorem bounded_receiveBytes {o : NetworkOptions} (ho : o.Accepted) {n : Nat} (hn : 1 ≤ n)
    {conn : Connection} (h : conn.Bounded o n n) (hpause : PauseKept o conn)
    (hreading : conn.Reading) (ambient : Nat → Ambient Q) (store : Store Q) (bytes : Bytes)
    (hbatch : (frameParser.drain (conn.readBuffer ++ bytes)).rejected = false →
      (frameParser.drain (conn.readBuffer ++ bytes)).items.length ≤ n) :
    (conn.receiveBytes o ambient store bytes).1.Bounded o n n ∧
      PauseKept o (conn.receiveBytes o ambient store bytes).1 := by
  have hzero := h.of_reading hpause hreading
  cases hrejected : (frameParser.drain (conn.readBuffer ++ bytes)).rejected with
  | true =>
      rw [receiveBytes_rejected hrejected]
      have hstate : (conn.withInput bytes .onProtocolError).Bounded o n 0 :=
        ⟨hzero.hard, hzero.top, hzero.fast⟩
      have hfinal := bounded_finalResponse hstate hn hreading.opened
        (ascii "-ERR protocol error")
      have hpause' := pauseKept_queueResponse ho (conn.withInput bytes .onProtocolError)
        (ascii "-ERR protocol error")
      simp only [finalResponse]
      split
      · exact ⟨⟨hfinal.hard, hfinal.top, hfinal.fast⟩, pauseKept_of_closing o (.inr rfl)⟩
      · exact ⟨hfinal, hpause'⟩
  | false =>
      rw [receiveBytes_accepted hrejected]
      have hlen := hbatch hrejected
      have hstate : (conn.withInput bytes (.addFramesReceived
          (frameParser.drain (conn.readBuffer ++ bytes)).items.length)).Bounded o n 0 :=
        ⟨hzero.hard, hzero.top, hzero.fast⟩
      obtain ⟨hbounded, hpause'⟩ := bounded_processPayloads ho (n := n)
        (frameParser.drain (conn.readBuffer ++ bytes)).items ambient store (k := 0) hstate
        (fun h => hpause ⟨h.opened, h.unpaused, h.serving⟩)
        ⟨hreading.opened, hreading.serving⟩ (by omega)
      exact ⟨hbounded.mono (by omega), hpause'⟩

theorem steady_receiveBytes {o : NetworkOptions} (ho : o.Accepted) {conn : Connection}
    (h : conn.Steady o) (hreading : conn.Reading) (ambient : Nat → Ambient Q) (store : Store Q)
    {bytes : Bytes} (hlen : bytes.length ≤ 16 * 1024) :
    (conn.receiveBytes o ambient store bytes).1.Steady o := by
  have hreceived :=
    received_receiveBytes o ambient store hreading.opened hreading.serving bytes
  obtain ⟨more, hcalls, hframes⟩ := hreceived.calls
  have hitems : (frameParser.drain (conn.readBuffer ++ bytes)).items.length ≤ 4096 := by
    have := @length_items_le _ bytes (h.waiting hreading.opened hreading.serving)
    simp only [headerSize] at this
    omega
  obtain ⟨-, hpause⟩ := bounded_receiveBytes ho (by decide)
    (h.bounded 4096 (by decide) h.batches) h.pause hreading ambient store bytes fun _ => hitems
  refine ⟨hreceived.waiting, hpause, ?_, ?_⟩
  · intro k hk
    rw [hcalls] at hk
    obtain hk | hk := List.mem_append.mp hk
    · exact h.batches k hk
    · rw [((hframes k).mp hk).2]
      exact hitems
  · intro n hn hbatch
    rw [hcalls] at hbatch
    have hbefore := h.bounded n hn fun k hk => hbatch k (List.mem_append_left _ hk)
    refine (bounded_receiveBytes ho hn hbefore h.pause hreading ambient store bytes ?_).1
    intro haccepted
    exact hbatch _ (List.mem_append_right _ ((hframes _).mpr ⟨haccepted, rfl⟩))

theorem steady_handleClientRead {o : NetworkOptions} (ho : o.Accepted) {conn : Connection}
    (h : conn.Steady o) (input : IoInput Q) (store : Store Q) :
    (conn.handleClientRead o input store).1.Steady o := by
  by_cases hreading : conn.Reading
  swap
  · rw [handleClientRead_refused hreading]
    exact h
  have houtcome := handleClientRead_outcome hreading o input store
  generalize conn.handleClientRead o input store = result at houtcome ⊢
  cases houtcome with
  | oversized hfull => exact steady_rejectOversizedReadBuffer h hreading
  | ended hroom hrecv hnil =>
      apply (h.markClosed _).markClosed
      · decide
      · decide
  | @bytes ready hroom hrecv hnil =>
      apply steady_receiveBytes ho h hreading
      calc (ready.take (conn.readSize o)).length
          ≤ conn.readSize o := List.length_take_le ..
        _ ≤ 16 * 1024 := Nat.min_le_left ..
  | wouldBlock hrecv => exact h
  | failed hrecv => exact h.markClosed (by decide)

theorem steady_handleEvent {o : NetworkOptions} (ho : o.Accepted) {conn : Connection}
    (h : conn.Steady o) (state : ServerState) (events : IoEvent) (input : IoInput Q)
    (store : Store Q) : (conn.handleEvent o state events input store).1.1.Steady o := by
  rw [handleEvent_cases]
  split
  · exact h.markClosed (by decide)
  split
  · have hread := steady_handleClientRead ho h input store
    exact hread.delivers (delivers_afterRead o events input _)
      (pauseKept_afterRead ho hread.pause events input)
  · exact h.delivers (delivers_afterRead o events input conn)
      (pauseKept_afterRead ho h.pause events input)

theorem pauseKept_beginDrain {o : NetworkOptions} (ho : o.Accepted) (conn : Connection) :
    PauseKept o (conn.beginDrain o).1 := by
  unfold beginDrain
  simp only
  split
  · exact pauseKept_of_closing o (.inl rfl)
  · exact pauseKept_refreshInterest ho (pauseKept_of_closing o (.inr rfl))

/-! ### A batch of large responses -/

/-- A GET queues the value. -/
theorem processPayload_get {o : NetworkOptions} {store : Store Q} {payload : Bytes}
    {entry : Entry} (hget : (CommandParser.parseCommand payload).type = .get)
    (hlook : store.state.data.lookup (CommandParser.parseCommand payload).key = some entry)
    (hnever : entry.expireAt = none) (hvalue : entry.value.length + 1 ≤ maxFrameSize)
    {ambient : Ambient Q} (halone : ambient.interfere = id) {conn : Connection}
    (hopen : conn.closed = false) (hserving : conn.closeAfterWrite = false)
    (hroom : conn.pending.length + (headerSize + 1 + entry.value.length) ≤
      o.writeHardLimitBytes) :
    ∃ next, conn.processPayload o ambient store payload = (true, next, store) ∧
      next.closed = false ∧ next.closeAfterWrite = false ∧
      next.pending.length = conn.pending.length + (headerSize + 1 + entry.value.length) := by
  have hresult : payloadResult ambient store payload = (ascii "$" ++ entry.value, store) := by
    have hlive : KvStore.isExpired entry ambient.now = false := by
      simp [KvStore.isExpired, hnever]
    have hexecute := Store.execute_get hget hlook hlive
    simp [payloadResult, respond, hget, halone, hexecute]
  have hmark : (ascii "$").length = 1 := rfl
  have hlen : (frameOf (ascii "$" ++ entry.value)).length =
      headerSize + 1 + entry.value.length := by
    rw [length_frameOf, List.length_append, ← Nat.add_assoc]
    rfl
  have hquit : isQuit payload = false := by simp [isQuit, hget]
  rcases processPayload_cases o ambient store conn payload with
    ⟨cause, calls, hrefusal, -, -⟩ | ⟨paused, before, calls, -, -, -, -, heq⟩
  · exfalso
    rw [hresult] at hrefusal
    obtain ⟨-, -, hover⟩ | ⟨-, hlarge⟩ := hrefusal
    · rw [hlen] at hover
      omega
    · rw [List.length_append] at hlarge
      omega
  · rw [hresult, hquit, hserving] at heq
    refine ⟨_, heq, hopen, rfl, ?_⟩
    rw [← hlen]
    simp [withResponse, withExecuted, pending]

/-- A batch of GETs queues the value once for each of them; by induction on the batch. -/
theorem pending_processPayloads_get {o : NetworkOptions} {store : Store Q} {payload : Bytes}
    {entry : Entry} (hget : (CommandParser.parseCommand payload).type = .get)
    (hlook : store.state.data.lookup (CommandParser.parseCommand payload).key = some entry)
    (hnever : entry.expireAt = none) (hvalue : entry.value.length + 1 ≤ maxFrameSize)
    (n : Nat) (ambient : Nat → Ambient Q) (halone : ∀ i, (ambient i).interfere = id)
    {conn : Connection} (hopen : conn.closed = false) (hserving : conn.closeAfterWrite = false)
    (hroom : conn.pending.length + n * (headerSize + 1 + entry.value.length) ≤
      o.writeHardLimitBytes) :
    let after := (conn.processPayloads o ambient store (List.replicate n payload)).1
    after.closed = false ∧ after.closeAfterWrite = false ∧
      after.pending.length = conn.pending.length + n * (headerSize + 1 + entry.value.length) := by
  induction n generalizing ambient conn with
  | zero => exact ⟨hopen, hserving, by simp [processPayloads]⟩
  | succ n ih =>
      have hsucc : (n + 1) * (headerSize + 1 + entry.value.length) =
          n * (headerSize + 1 + entry.value.length) + (headerSize + 1 + entry.value.length) :=
        Nat.succ_mul ..
      obtain ⟨next, hone, hstill, hflag, hpending⟩ :=
        processPayload_get hget hlook hnever hvalue (halone 0) hopen hserving (o := o) (by omega)
      rw [List.replicate_succ, processPayloads, hone]
      obtain ⟨hafter, hserving', hall⟩ := ih (fun i => ambient (i + 1)) (fun i => halone (i + 1))
        hstill hflag (by omega)
      refine ⟨hafter, hserving', hall.trans ?_⟩
      omega

/-- A connection with pending output stays open when its interests are refreshed. -/
theorem refreshInterest_of_pending {o : NetworkOptions} {conn : Connection}
    (hopen : conn.closed = false) (h : conn.pending ≠ []) :
    (conn.refreshInterest o).1 = conn.updateReadBackPressure o := by
  have hbusy : conn.writeBuffer.isEmpty = false := by
    rw [Bool.eq_false_iff]
    exact fun hempty => h ((OutputBuffer.isEmpty_iff _).mp hempty)
  unfold refreshInterest
  simp only [hopen, Bool.false_eq_true, if_false, updateReadBackPressure_pending, hbusy,
    Bool.and_false]
  rw [if_neg]
  · split <;> rfl
  · intro hnone
    exact h (by simpa [pending] using pending_of_desiredEvents_none (by simpa using hopen) hnone)

end Connection

namespace Session

theorem steady_step {o : NetworkOptions} (ho : o.Accepted) (s : Session Q)
    (h : s.conn.Steady o) (event : SessionEvent Q) : (s.step o event).conn.Steady o := by
  rcases step_conn o s event with heq | ⟨reason, heq⟩ | ⟨registered, heq⟩ |
    ⟨events, input, registered, -, heq⟩
  · rw [heq]
    exact h
  · rw [heq]
    apply h.markClosed
    cases reason <;> simp [ForcedClose.cause]
  · have hdrain := Connection.pauseKept_beginDrain ho s.conn
    rw [heq]
    apply h.delivers ((Connection.delivers_beginDrain o s.conn).trans (.register _ registered))
    rintro ⟨hopen, hunpaused, hserving⟩
    exact hdrain ⟨hopen, hunpaused, hserving⟩
  · have hevent := Connection.steady_handleEvent ho h s.phase events input s.store
    rw [heq]
    apply hevent.delivers (.register _ registered)
    rintro ⟨hopen, hunpaused, hserving⟩
    exact hevent.pause ⟨hopen, hunpaused, hserving⟩

theorem steady_run {o : NetworkOptions} (ho : o.Accepted) (fd : Int) (store : Store Q)
    (events : List (SessionEvent Q)) : ((start fd store).run o events).conn.Steady o :=
  (machine o).run_invariant (I := fun s => s.conn.Steady o)
    (fun s hs event _ => steady_step ho s hs event) (Connection.steady_accepted o fd)

/-- Pending output is bounded by the hard limit, and by the high watermark and one response
for each frame of the largest batch; no batch has more than 4096 frames. A connection is
closed as slow only if the hard limit leaves no room for the responses of such a batch. -/
theorem pending_bounded {config : AppConfig} (hconfig : ConfigLoader.validate config = .ok ())
    (fd : Int) (store : Store Q) (events : List (SessionEvent Q)) :
    let o := config.network
    let conn := ((start fd store).run o events).conn
    (∀ k, .addFramesReceived k ∈ conn.calls → k ≤ 4096) ∧
    ∀ n, 1 ≤ n → (∀ k, .addFramesReceived k ∈ conn.calls → k ≤ n) →
      (conn.closed = false →
        conn.writeBuffer.size ≤ o.writeHardLimitBytes ∧
        conn.writeBuffer.size ≤ o.writeHighWatermarkBytes + n * (headerSize + maxFrameSize) ∧
        (o.writeLowWatermarkBytes < o.writeHighWatermarkBytes →
          conn.writeBuffer.size < o.writeHighWatermarkBytes + n * (headerSize + maxFrameSize))) ∧
      (o.writeHighWatermarkBytes + n * (headerSize + maxFrameSize) ≤ o.writeHardLimitBytes →
        .slowClient ∉ conn.trace.causes) := by
  intro o conn
  have ho : o.Accepted := ConfigLoader.accepted_of_validate hconfig
  have hsteady : conn.Steady o := steady_run ho fd store events
  obtain ⟨-, -, htop⟩ := Connection.readTop_bounds ho
  refine ⟨hsteady.batches, fun n hn hbatch => ⟨fun hopen => ?_, fun hroom => ?_⟩⟩
  · have hbounded := hsteady.bounded n hn hbatch
    have hbelow := hbounded.top hopen
    rw [OutputBuffer.size_eq]
    refine ⟨hbounded.hard hopen, ?_, fun hlow => ?_⟩
    · calc conn.pending.length
          ≤ o.readTop + n * frameLimit := hbelow
        _ ≤ o.writeHighWatermarkBytes + n * frameLimit := Nat.add_le_add_right htop _
    · have hread : o.readTop = o.writeHighWatermarkBytes - 1 := if_pos hlow
      calc conn.pending.length
          ≤ o.readTop + n * frameLimit := hbelow
        _ < o.writeHighWatermarkBytes + n * frameLimit := by omega
  · apply (hsteady.bounded n hn hbatch).fast
    exact (Nat.add_le_add_right htop _).trans hroom

/-- After one PING the bound is that of one response. -/
theorem pending_bounded_ping :
    (fresh.run {} [readable (frameOf (ascii "PING"))]).conn.writeBuffer.size <
      1024 * 1024 + 1 * (headerSize + maxFrameSize) := by
  have hcalls : (fresh.run {} [readable (frameOf (ascii "PING"))]).conn.calls =
      [.addBytesReceived 8, .addFramesReceived 1, .onCommandProcessed, .recordCommandLatency 0,
        .observePendingWriteBytes 9] := by
    decide
  obtain ⟨-, hbound⟩ := @pending_bounded _ {} rfl 5 Store.empty
    [readable (frameOf (ascii "PING"))]
  have hbatch : ∀ k, .addFramesReceived k ∈
      (fresh.run {} [readable (frameOf (ascii "PING"))]).conn.calls → k ≤ 1 := by
    intro k hk
    rw [hcalls] at hk
    simp at hk
    exact hk.le
  exact ((hbound 1 le_rfl hbatch).1 rfl).2.2 (by decide)

/-- One `recv` result with three GETs of a large value, under the default options. -/
theorem pending_three_gets {value : Bytes} (hvalue : value.length = 700000) :
    let store : Store sortedExpirations :=
      (Store.empty.execute 0 { type := .set, key := ascii "k", value }).2
    let conn := ((start 5 store).run {}
      [readable ((List.replicate 3 (frameOf (ascii "GET k"))).flatten)]).conn
    conn.closed = false ∧ conn.writeBuffer.size = 3 * (headerSize + 1 + 700000) := by
  intro store
  obtain ⟨generation, hlook⟩ := @Store.lookup_execute_set _
    (Store.empty : Store sortedExpirations) 0 { type := .set, key := ascii "k", value } rfl
  change store.state.data.lookup (ascii "k") = _ at hlook
  generalize store = store at hlook
  let received : Connection := { Connection.accepted 5 with
    calls := [.addBytesReceived 27, .addFramesReceived 3]
    trace := { received := [(List.replicate 3 (frameOf (ascii "GET k"))).flatten] } }
  have hroom : received.pending.length + 3 * (headerSize + 1 + value.length) ≤
      ({} : NetworkOptions).writeHardLimitBytes := by
    rw [hvalue]
    decide
  obtain ⟨hopen, hserving, hpending⟩ :=
    @Connection.pending_processPayloads_get _ {} store (ascii "GET k") _ (by decide) hlook rfl
      (by rw [hvalue]; decide) 3 quiet (fun _ => rfl) received rfl rfl hroom
  rw [hvalue] at hpending
  have hread : (Connection.accepted 5).handleClientRead {}
      (reading ((List.replicate 3 (frameOf (ascii "GET k"))).flatten)) store =
      received.processPayloads {} quiet store (List.replicate 3 (ascii "GET k")) := rfl
  generalize received.processPayloads {} quiet store (List.replicate 3 (ascii "GET k")) =
    result at hread hopen hserving hpending
  have hpos : result.1.pending ≠ [] := by
    intro hnil
    rw [hnil] at hpending
    cases hpending
  let input := reading ((List.replicate 3 (frameOf (ascii "GET k"))).flatten)
  have hevent : ((Connection.accepted 5).handleEvent {} .running { read := true } input store).1 =
      result.1.refreshInterest {} := by
    rw [Connection.handleEvent_cases, if_neg (by decide), if_pos (by decide), hread]
    simp [Connection.afterRead, hopen]
  obtain ⟨registered, hregister⟩ :=
    Connection.register_conn (result.1.refreshInterest {}) true
  intro conn
  have hconn :
      conn = { result.1.updateReadBackPressure {} with registeredEvents := registered } := by
    rw [← Connection.refreshInterest_of_pending hopen hpos, ← hregister, ← hevent]
    exact conn_run_ready {} 5 store { read := true } input true
  rw [hconn, OutputBuffer.size_eq]
  constructor
  · simpa using hopen
  · change (result.1.updateReadBackPressure {}).writeBuffer.data.length = _
    rw [Connection.updateReadBackPressure_pending]
    exact hpending.trans (Nat.zero_add _)

/-- Three GETs of a value of 700000 bytes leave more pending than the high watermark and
one response. -/
theorem pending_exceeds_one_response :
    let store : Store sortedExpirations :=
      (Store.empty.execute 0
        { type := .set, key := ascii "k", value := List.replicate 700000 0x61 }).2
    let conn := ((start 5 store).run {}
      [readable ((List.replicate 3 (frameOf (ascii "GET k"))).flatten)]).conn
    ConfigLoader.validate {} = .ok () ∧ conn.closed = false ∧
      ¬ conn.writeBuffer.size < 1024 * 1024 + headerSize + maxFrameSize := by
  have hlength : (List.replicate 700000 (0x61 : UInt8)).length = 700000 :=
    List.length_replicate ..
  have hgets := pending_three_gets hlength
  dsimp only at hgets ⊢
  refine ⟨rfl, hgets.1, ?_⟩
  rw [hgets.2]
  decide

end Session

end TinyKv
