import TinyKv.Net.Requests

/-!
# Execution and TCP segmentation

The requests a byte stream asks for are its frames before the first oversize header, up
to the first QUIT. The connection executes exactly these, however the stream is cut
into `recv` results, with one exception: `Decode` throws away the frames it has taken
from a result that also completes an oversize header.
-/

namespace TinyKv

open Foundation FrameCodec

variable {Q : ExpirationQueue}

namespace Connection

/-- The requests a stream asks for. -/
def requestsOf (stream : Bytes) : List Bytes := throughQuit (frameParser.drain stream).items

/-- No requested frame ends inside the `recv` result that completes the first oversize
header. -/
def HeaderApart (chunks : List Bytes) : Prop :=
  ∀ before chunk after, chunks = before ++ chunk :: after →
    (frameParser.drain before.flatten).rejected = false →
    (frameParser.drain (before.flatten ++ chunk)).rejected = true →
    ((requestsOf (before.flatten ++ chunk)).flatMap frameOf).length ≤ before.flatten.length

/-- The closes after an I/O error, for a limit, and for the shutdown of the reactor. -/
def disturbing : CloseCause → Bool
  | .errorEvent | .recvFailed | .sendFailed => true
  | .slowClient | .unencodable | .oversized => true
  | .drained | .deadline | .forceStop => true
  | .flushed | .endOfInput | .hangup | .noInterest => false

/-- An I/O error, a limit or the shutdown has closed the connection. -/
def Disturbed (conn : Connection) : Prop := ∃ cause ∈ conn.trace.causes, disturbing cause = true

/-- The connection stopped reading for another reason than a request: the end of input, a
hangup, or the want of interests, which only a high watermark of 0 leads to. -/
def CutOff (conn : Connection) : Prop :=
  conn.trace.hungUp = true ∨ .endOfInput ∈ conn.trace.causes ∨ .noInterest ∈ conn.trace.causes

/-! ### Streams -/

/-- The items before a rejection do not depend on what follows, and without a rejection
the items of a prefix come first. -/
theorem items_append (before more : Bytes) :
    ∃ rest, (frameParser.drain (before ++ more)).items =
      (frameParser.drain before).items ++ rest := by
  cases h : (frameParser.drain before).rejected with
  | true => exact ⟨[], by rw [frameParser.drain_append_of_rejected h, List.append_nil]⟩
  | false => exact ⟨_, by rw [frameParser.drain_append h]⟩

theorem requestsOf_append_of_quit {before : Bytes}
    (h : (frameParser.drain before).items.any isQuit = true) (more : Bytes) :
    requestsOf (before ++ more) = requestsOf before := by
  obtain ⟨rest, hrest⟩ := items_append before more
  rw [requestsOf, hrest, throughQuit_append_of_any h, requestsOf]

theorem requestsOf_append_of_rejected {before : Bytes}
    (h : (frameParser.drain before).rejected = true) (more : Bytes) :
    requestsOf (before ++ more) = requestsOf before := by
  rw [requestsOf, frameParser.drain_append_of_rejected h, requestsOf]

/-- The requests of a longer stream are those of a prefix exactly when they end in it. -/
theorem requestsOf_append_iff {before : Bytes}
    (hrejected : (frameParser.drain before).rejected = false)
    (hquit : (frameParser.drain before).items.any isQuit = false) (more : Bytes) :
    requestsOf (before ++ more) = (frameParser.drain before).items ↔
      ((requestsOf (before ++ more)).flatMap frameOf).length ≤ before.length := by
  have hbefore := congrArg List.length (drain_rebuild before)
  rw [List.length_append] at hbefore
  constructor
  · intro heq
    rw [heq]
    omega
  · intro hle
    have hmore : frameParser.next (frameParser.drain before).rest = .more := by
      rw [frameParser.next_drain_rest, hrejected]
      rfl
    rw [requestsOf, frameParser.drain_append hrejected, throughQuit_append hquit] at hle ⊢
    have hstream := drain_rebuild ((frameParser.drain before).rest ++ more)
    have hsizes := drain_items_le ((frameParser.drain before).rest ++ more)
    cases hitems : (frameParser.drain ((frameParser.drain before).rest ++ more)).items with
    | nil => simp [throughQuit]
    | cons payload items =>
        exfalso
        rw [hitems] at hle hstream hsizes
        rw [List.flatMap_cons, List.append_assoc] at hstream
        have hlt := length_frameOf_of_next_more hmore (hsizes payload (List.mem_cons_self ..))
          hstream
        have hfirst : (frameOf payload).length ≤
            ((throughQuit (payload :: items)).flatMap frameOf).length := by
          simp only [throughQuit]
          split <;> simp
        rw [List.flatMap_append, List.length_append] at hle
        omega

/-- While nothing has been rejected, no header is oversize. -/
theorem headerApart_of_accepted {chunks : List Bytes}
    (haccepted : (frameParser.drain chunks.flatten).rejected = false) : HeaderApart chunks := by
  intro before chunk after hchunks _ hrejected
  rw [hchunks, List.flatten_append, List.flatten_cons, ← List.append_assoc] at haccepted
  rw [frameParser.rejected_of_append haccepted] at hrejected
  cases hrejected

/-- When the last chunk is the first one that is rejected, it has the first oversize header. -/
theorem headerApart_snoc_iff {before : List Bytes} {chunk : Bytes}
    (haccepted : (frameParser.drain before.flatten).rejected = false)
    (hrejected : (frameParser.drain (before.flatten ++ chunk)).rejected = true) :
    HeaderApart (before ++ [chunk]) ↔
      ((requestsOf (before.flatten ++ chunk)).flatMap frameOf).length ≤ before.flatten.length := by
  constructor
  · intro hapart
    exact hapart before chunk [] rfl haccepted hrejected
  · intro hle before' chunk' after' hsplit _ hrejected'
    obtain rfl | ⟨init, last, rfl⟩ := List.eq_nil_or_concat after'
    · obtain ⟨rfl, hlast⟩ := List.append_inj' hsplit rfl
      cases hlast
      exact hle
    · -- an earlier chunk has not been rejected
      exfalso
      rw [List.concat_eq_append, ← List.cons_append, ← List.append_assoc] at hsplit
      obtain ⟨hbefore, -⟩ := List.append_inj' hsplit rfl
      rw [hbefore, List.flatten_append, List.flatten_cons, ← List.append_assoc] at haccepted
      rw [frameParser.rejected_of_append haccepted] at hrejected'
      cases hrejected'

/-! ### Serving connections -/

theorem Grows.disturbed {a b : Connection} (hab : Grows a b) (h : a.Disturbed) :
    b.Disturbed := by
  obtain ⟨cause, hcause, hdisturbing⟩ := h
  exact ⟨cause, hab.causes.subset hcause, hdisturbing⟩

theorem Grows.cutOff {a b : Connection} (hab : Grows a b) (h : a.CutOff) : b.CutOff :=
  h.imp hab.hungUp (Or.imp (fun h => hab.causes.subset h) fun h => hab.causes.subset h)

theorem disturbed_markClosed (conn : Connection) {cause : CloseCause}
    (h : disturbing cause = true) : (conn.markClosed cause).Disturbed :=
  ⟨cause, by simp [markClosed], h⟩

/-- A connection that is open and not about to close. -/
def Serving (conn : Connection) : Prop := conn.closed = false ∧ conn.closeAfterWrite = false

theorem not_serving {conn : Connection} (h : conn.closeAfterWrite = true) : ¬ conn.Serving := by
  rintro ⟨-, hserving⟩
  rw [h] at hserving
  cases hserving

theorem not_serving_markClosed (conn : Connection) (cause : CloseCause) :
    ¬ (conn.markClosed cause).Serving := by
  rintro ⟨hopen, -⟩
  cases hopen

theorem Delivers.stopped {a b : Connection} (hab : Delivers a b) (h : ¬ a.Serving) :
    ¬ b.Serving := by
  rintro ⟨hopen, hserving⟩
  obtain ⟨ha, -, hflag⟩ := hab.opened hopen
  apply h
  refine ⟨ha, ?_⟩
  by_contra hclose
  rw [hflag (Bool.not_eq_false _ ▸ hclose)] at hserving
  cases hserving

/-- What a serving connection becomes when nothing is read. -/
inductive Continued (conn : Connection) : Prop where
  | serving (h : conn.Serving)
  | cutOff (hstopped : ¬ conn.Serving) (h : conn.CutOff)
  | disturbed (h : conn.Disturbed)

theorem Continued.delivers {a b : Connection} (h : a.Continued) (hab : Delivers a b)
    (hserve : a.Serving → b.Continued) : b.Continued := by
  cases h with
  | serving hserving => exact hserve hserving
  | cutOff hstopped hcut => exact .cutOff (hab.stopped hstopped) (hab.grows.cutOff hcut)
  | disturbed hdisturbed => exact .disturbed (hab.grows.disturbed hdisturbed)

theorem serving_updateReadBackPressure {conn : Connection} (h : conn.Serving)
    (o : NetworkOptions) : (conn.updateReadBackPressure o).Serving := by
  simpa [Serving] using h

theorem continued_handleClientWrite {conn : Connection} (h : conn.Serving) (o : NetworkOptions)
    (input : IoInput Q) : (conn.handleClientWrite o input).Continued := by
  obtain ⟨hopen, hserving⟩ := h
  unfold handleClientWrite
  simp only [hopen, Bool.false_eq_true, if_false]
  split
  · apply Continued.serving
    simpa [hserving] using serving_updateReadBackPressure ⟨hopen, hserving⟩ o
  cases input.send.result with
  | accepted bytes =>
      simp only
      split
      · apply Continued.serving
        simp [sendBytes, hserving, Serving, hopen]
      · exact .disturbed (disturbed_markClosed conn rfl)
  | wouldBlock => exact .serving ⟨hopen, hserving⟩
  | failed => exact .disturbed (disturbed_markClosed conn rfl)

theorem continued_hangUp (conn : Connection) : conn.hangUp.Continued := by
  unfold hangUp
  simp only
  split
  · exact .cutOff (not_serving_markClosed _ _) (.inl rfl)
  · exact .cutOff (not_serving rfl) (.inl rfl)

theorem continued_refreshInterest {conn : Connection} (h : conn.Serving) (o : NetworkOptions) :
    (conn.refreshInterest o).1.Continued := by
  have hupdate := serving_updateReadBackPressure h o
  unfold refreshInterest
  simp only [h.1, Bool.false_eq_true, if_false, hupdate.2, Bool.false_and]
  split
  · apply Continued.cutOff (not_serving_markClosed _ _)
    exact .inr (.inr (by simp [markClosed]))
  split
  · exact .serving hupdate
  · exact .serving hupdate

theorem continued_afterRead {conn : Connection} (h : conn.Serving) (o : NetworkOptions)
    (events : IoEvent) (input : IoInput Q) :
    (conn.afterRead o events input).1.Continued := by
  unfold afterRead
  simp only
  generalize hwrite :
    (if !conn.closed && events.write then conn.handleClientWrite o input else conn) = written
  have hwritten : written.Continued := by
    rw [← hwrite]
    split
    · exact continued_handleClientWrite h o input
    · exact .serving h
  generalize hhang :
    (if !written.closed && events.hangup then written.hangUp else written) = hung
  have hhung : hung.Continued := by
    rw [← hhang]
    split
    · exact continued_hangUp written
    · exact hwritten
  split
  · apply hhung.delivers (delivers_refreshInterest o hung)
    intro hserving
    exact continued_refreshInterest hserving o
  · exact hhung

/-! ### Interests -/

/-- With a positive high watermark, nothing pending means reading is not paused. -/
theorem unpaused_of_empty {o : NetworkOptions} (hhigh : 0 < o.writeHighWatermarkBytes)
    {conn : Connection} (h : conn.Serving) (hempty : conn.pending = []) :
    (conn.updateReadBackPressure o).readPaused = false := by
  have hsize : conn.writeBuffer.size = 0 := by
    rw [OutputBuffer.size_eq]
    exact List.length_eq_zero_iff.mpr hempty
  unfold updateReadBackPressure
  rw [if_neg (by simp [h.1, h.2])]
  cases hpaused : conn.readPaused with
  | true => simp [hsize, count]
  | false => simp [hsize, hhigh.ne', hpaused]

/-- The connection was not closed for want of interests. -/
def Wanted (conn : Connection) : Prop := .noInterest ∉ conn.trace.causes

/-- With a positive high watermark, an open connection has interests. -/
theorem wanted_refreshInterest {o : NetworkOptions} (hhigh : 0 < o.writeHighWatermarkBytes)
    {conn : Connection} (h : conn.Wanted) :
    (conn.refreshInterest o).1.Wanted := by
  unfold refreshInterest
  split
  · exact h
  next hopen =>
    rw [Bool.not_eq_true] at hopen
    simp only
    split
    · simpa [Wanted, markClosed] using h
    next hflushed =>
      split
      · next hnone =>
        exfalso
        have hpending := pending_of_desiredEvents_none
          ((updateReadBackPressure_closed o conn).trans hopen) hnone
        rw [pending, updateReadBackPressure_pending, ← OutputBuffer.isEmpty_iff] at hpending
        simp only [updateReadBackPressure_closeAfterWrite, updateReadBackPressure_pending,
          hpending, Bool.and_true, Bool.not_eq_true] at hflushed
        have hunpaused := unpaused_of_empty hhigh ⟨hopen, hflushed⟩
          ((OutputBuffer.isEmpty_iff _).mp hpending)
        simp [desiredEvents, hopen, hunpaused, hflushed, IoEvent.none] at hnone
      · split <;> rwa [Wanted, updateReadBackPressure_trace]

theorem wanted_handleClientWrite {o : NetworkOptions} {input : IoInput Q} {conn : Connection}
    (h : conn.Wanted) :
    (conn.handleClientWrite o input).Wanted := by
  unfold handleClientWrite
  split
  · exact h
  split
  · simp only
    split
    · simpa [Wanted, markClosed] using h
    · rwa [Wanted, updateReadBackPressure_trace]
  simp only
  cases input.send.result with
  | accepted bytes =>
      simp only
      split
      · unfold sendBytes
        simp only
        split
        · simpa [Wanted, markClosed] using h
        · rwa [Wanted, updateReadBackPressure_trace]
      · simpa [Wanted, markClosed] using h
  | wouldBlock => exact h
  | failed => simpa [Wanted, markClosed] using h

theorem wanted_hangUp {conn : Connection} (h : conn.Wanted) :
    conn.hangUp.Wanted := by
  unfold hangUp
  simp only
  split
  · simpa [Wanted, markClosed] using h
  · exact h

/-- With a positive high watermark, no event closes a connection for want of interests. -/
theorem wanted_handleEvent {o : NetworkOptions} (hhigh : 0 < o.writeHighWatermarkBytes)
    {conn : Connection} (h : conn.Wanted) (state : ServerState)
    (events : IoEvent) (input : IoInput Q) (store : Store Q) :
    (conn.handleEvent o state events input store).1.1.Wanted := by
  have hrest : ∀ conn : Connection, conn.Wanted →
      (conn.afterRead o events input).1.Wanted := by
    intro conn hconn
    have hwrite : Wanted (if !conn.closed && events.write then
        conn.handleClientWrite o input else conn) :=
      iteInduction (fun _ => wanted_handleClientWrite hconn) fun _ => hconn
    unfold afterRead
    generalize (if !conn.closed && events.write then conn.handleClientWrite o input
      else conn) = written at hwrite
    have hhang : Wanted (if !written.closed && events.hangup then written.hangUp
        else written) :=
      iteInduction (fun _ => wanted_hangUp hwrite) fun _ => hwrite
    simp only
    generalize (if !written.closed && events.hangup then written.hangUp else written) = hung
      at hhang
    split
    · exact wanted_refreshInterest hhigh hhang
    · exact hhang
  rw [handleEvent_cases]
  split
  · simpa [Wanted, markClosed] using h
  split
  · apply hrest
    intro hmem
    exact h ((newCauses_handleClientRead o input store conn _ hmem).resolve_right (by decide))
  · exact hrest conn h

/-! ### How far a connection has come in its stream -/

/-- All bytes received so far. -/
def stream (conn : Connection) : Bytes := conn.trace.received.flatten

/-- How far an undisturbed connection has come: it serves, has met QUIT, has met a
malformed header, or was cut off. -/
inductive Progress (conn : Connection) : Prop where
  | serving (hserving : conn.Serving)
      (haccepted : (frameParser.drain conn.stream).rejected = false)
      (hbuffer : conn.readBuffer = (frameParser.drain conn.stream).rest)
      (hexecuted : conn.executedPayloads = (frameParser.drain conn.stream).items)
      (hquit : (frameParser.drain conn.stream).items.any isQuit = false)
  | quit (hstopped : ¬ conn.Serving)
      (haccepted : (frameParser.drain conn.stream).rejected = false)
      (hexecuted : conn.executedPayloads = requestsOf conn.stream)
      (hquit : (frameParser.drain conn.stream).items.any isQuit = true)
  | malformed {before : List Bytes} {chunk : Bytes} (hstopped : ¬ conn.Serving)
      (hreceived : conn.trace.received = before ++ [chunk])
      (haccepted : (frameParser.drain before.flatten).rejected = false)
      (hrejected : (frameParser.drain (before.flatten ++ chunk)).rejected = true)
      (hexecuted : conn.executedPayloads = (frameParser.drain before.flatten).items)
      (hquit : (frameParser.drain before.flatten).items.any isQuit = false)
  | cutOff (hstopped : ¬ conn.Serving) (hcut : conn.CutOff)
      (haccepted : (frameParser.drain conn.stream).rejected = false)
      (hexecuted : conn.executedPayloads = (frameParser.drain conn.stream).items)
      (hquit : (frameParser.drain conn.stream).items.any isQuit = false)
  | disturbed (h : conn.Disturbed)

theorem progress_accepted (fd : Int) : (accepted fd).Progress :=
  .serving ⟨rfl, rfl⟩ rfl rfl rfl rfl

theorem Delivers.stream {a b : Connection} (hab : Delivers a b) : b.stream = a.stream := by
  rw [Connection.stream, hab.received, Connection.stream]

theorem Delivers.executedPayloads {a b : Connection} (hab : Delivers a b) :
    b.executedPayloads = a.executedPayloads := by
  rw [Connection.executedPayloads, hab.executed, Connection.executedPayloads]

/-- Steps that only deliver keep the progress, by what they make of a serving connection. -/
theorem Progress.delivers {a b : Connection} (h : a.Progress) (hab : Delivers a b)
    (hserve : a.Serving → b.Continued) : b.Progress := by
  cases h with
  | serving hserving haccepted hbuffer hexecuted hquit =>
      rw [← hab.stream] at haccepted hbuffer hexecuted hquit
      have hexecuted' := hab.executedPayloads.trans hexecuted
      cases hserve hserving with
      | serving hb =>
          exact .serving hb haccepted ((hab.opened hb.1).2.1.trans hbuffer) hexecuted' hquit
      | cutOff hstopped hcut => exact .cutOff hstopped hcut haccepted hexecuted' hquit
      | disturbed hb => exact .disturbed hb
  | quit hstopped haccepted hexecuted hquit =>
      rw [← hab.stream] at haccepted hexecuted hquit
      exact .quit (hab.stopped hstopped) haccepted (hab.executedPayloads.trans hexecuted) hquit
  | malformed hstopped hreceived haccepted hrejected hexecuted hquit =>
      exact .malformed (hab.stopped hstopped) (hab.received.trans hreceived) haccepted hrejected
        (hab.executedPayloads.trans hexecuted) hquit
  | cutOff hstopped hcut haccepted hexecuted hquit =>
      rw [← hab.stream] at haccepted hexecuted hquit
      exact .cutOff (hab.stopped hstopped) (hab.grows.cutOff hcut) haccepted
        (hab.executedPayloads.trans hexecuted) hquit
  | disturbed hdisturbed => exact .disturbed (hab.grows.disturbed hdisturbed)

/-- One `recv` result on a serving connection. -/
theorem Progress.received {a b : Connection} {bytes : Bytes} (hserving : a.Serving)
    (h : a.Progress) (hab : Received a b bytes) : b.Progress := by
  cases h with
  | quit hstopped => exact absurd hserving hstopped
  | malformed hstopped => exact absurd hserving hstopped
  | cutOff hstopped => exact absurd hserving hstopped
  | disturbed hdisturbed => exact .disturbed (hab.grows.disturbed hdisturbed)
  | serving _ haccepted hbuffer hexecuted hquit =>
      have hstream : b.stream = a.stream ++ bytes := by simp [stream, hab.received]
      have hsplit := frameParser.drain_append haccepted bytes
      rw [← hbuffer] at hsplit
      obtain hrefused | ⟨hopen, -, hrest, hcase⟩ := hab.outcome
      · apply Progress.disturbed
        obtain hcause | hcause := hrefused.2
        · exact ⟨_, hcause, rfl⟩
        · exact ⟨_, hcause, rfl⟩
      cases hrejected : (frameParser.drain (a.readBuffer ++ bytes)).rejected with
      | true =>
          rw [hrejected] at hsplit
          rw [if_pos hrejected] at hcase
          exact .malformed (not_serving hcase.2) hab.received haccepted
            (congrArg Drained.rejected hsplit) (hcase.1.trans hexecuted) hquit
      | false =>
          rw [hrejected] at hsplit
          rw [if_neg (by simp [hrejected])] at hcase
          have hitems : (frameParser.drain b.stream).items =
              (frameParser.drain a.stream).items ++
                (frameParser.drain (a.readBuffer ++ bytes)).items := by
            rw [hstream, hsplit]
          have hrequests : b.executedPayloads = requestsOf b.stream := by
            rw [hcase.1, hexecuted, requestsOf, hitems, throughQuit_append hquit]
          have haccepted' : (frameParser.drain b.stream).rejected = false := by
            rw [hstream, hsplit]
          cases hany : (frameParser.drain (a.readBuffer ++ bytes)).items.any isQuit with
          | true =>
              exact .quit (not_serving (hcase.2.trans hany)) haccepted' hrequests
                (by simp [hitems, hany])
          | false =>
              have hnone : (frameParser.drain b.stream).items.any isQuit = false := by
                simp [hitems, hquit, hany]
              refine .serving ⟨hopen, hcase.2.trans hany⟩ haccepted' ?_ ?_ hnone
              · rw [hrest, hstream, hsplit]
              · rw [hrequests, requestsOf, throughQuit_of_not_any hnone]

theorem progress_receiveEnd {conn : Connection} (hserving : conn.Serving) (h : conn.Progress) :
    conn.receiveEnd.Progress := by
  cases h with
  | quit hstopped => exact absurd hserving hstopped
  | malformed hstopped => exact absurd hserving hstopped
  | cutOff hstopped => exact absurd hserving hstopped
  | disturbed hdisturbed => exact .disturbed ((grows_receiveEnd conn).disturbed hdisturbed)
  | serving _ haccepted hbuffer hexecuted hquit =>
      refine .cutOff (not_serving_markClosed _ _) ?_ haccepted hexecuted hquit
      exact .inr (.inl (by simp [receiveEnd_eq, markClosed]))

/-- What waits for the rest of a frame leaves room in the read buffer. -/
def HasRoom (o : NetworkOptions) (conn : Connection) : Prop :=
  conn.readBuffer = (frameParser.drain conn.stream).rest →
    (frameParser.drain conn.stream).rejected = false →
      conn.readBuffer.length < o.maxReadBufferBytes

theorem hasRoom_of_fits {o : NetworkOptions}
    (hfits : headerSize + maxFrameSize ≤ o.maxReadBufferBytes) (conn : Connection) :
    conn.HasRoom o := by
  intro hbuffer haccepted
  have hmore : frameParser.next conn.readBuffer = .more := by
    rw [hbuffer, frameParser.next_drain_rest, haccepted]
    rfl
  exact (length_lt_of_next_more hmore).trans_le hfits

theorem Progress.handleClientRead {conn : Connection} (h : conn.Progress) {o : NetworkOptions}
    (hroom : conn.HasRoom o) (input : IoInput Q) (store : Store Q) :
    (conn.handleClientRead o input store).1.Progress := by
  by_cases hreading : conn.Reading
  swap
  · rw [handleClientRead_refused hreading]
    exact h
  have hserving : conn.Serving := ⟨hreading.opened, hreading.serving⟩
  have houtcome := handleClientRead_outcome hreading o input store
  generalize conn.handleClientRead o input store = result at houtcome ⊢
  cases houtcome with
  | oversized hfull =>
      cases h with
      | quit hstopped => exact absurd hserving hstopped
      | malformed hstopped => exact absurd hserving hstopped
      | cutOff hstopped => exact absurd hserving hstopped
      | disturbed hdisturbed =>
          exact .disturbed ((grows_rejectOversizedReadBuffer o conn).disturbed hdisturbed)
      | serving _ haccepted hbuffer hexecuted hquit =>
          exact absurd (hroom hbuffer haccepted) (Nat.not_lt.mpr hfull)
  | ended _ hrecv hnil => exact progress_receiveEnd hserving h
  | bytes _ hrecv hnil =>
      exact h.received hserving
        (received_receiveBytes o input.ambient store hreading.opened hreading.serving _)
  | wouldBlock hrecv => exact h
  | failed hrecv => exact .disturbed (disturbed_markClosed conn rfl)

theorem Progress.handleEvent {conn : Connection} (h : conn.Progress) {o : NetworkOptions}
    (hroom : conn.HasRoom o) (state : ServerState) (events : IoEvent) (input : IoInput Q)
    (store : Store Q) :
    (conn.handleEvent o state events input store).1.1.Progress := by
  have hrest : ∀ conn : Connection, conn.Progress →
      (conn.afterRead o events input).1.Progress := fun conn hconn =>
    hconn.delivers (delivers_afterRead o events input conn)
      fun hserving => continued_afterRead hserving o events input
  rw [handleEvent_cases]
  split
  · exact .disturbed (disturbed_markClosed conn rfl)
  split
  · exact hrest _ (h.handleClientRead hroom input store)
  · exact hrest conn h

end Connection

namespace Session

/-- A step that leaves the reactor running keeps the progress of its connection. -/
theorem progress_step {o : NetworkOptions} {s : Session Q}
    (h : s.phase = .running → s.conn.Progress) (hroom : s.conn.HasRoom o)
    {event : SessionEvent Q} (hrunning : (s.step o event).phase = .running) :
    (s.step o event).conn.Progress := by
  obtain ⟨hphase, ready, input, modityOk, registered, -, hconn⟩ := step_running hrunning
  rw [hconn]
  apply ((h hphase).handleEvent hroom .running ready input s.store).delivers
    (Connection.Delivers.register _ registered)
  intro hserving
  exact .serving hserving

/-- While the reactor runs, its connections make progress. -/
theorem progress_run {o : NetworkOptions}
    (hfits : headerSize + maxFrameSize ≤ o.maxReadBufferBytes) (fd : Int) (store : Store Q)
    (events : List (SessionEvent Q)) :
    ((start fd store).run o events).phase = .running →
      ((start fd store).run o events).conn.Progress :=
  (machine o).run_invariant (I := fun s => s.phase = .running → s.conn.Progress)
    (fun _ hs _ _ hrunning =>
      progress_step hs (Connection.hasRoom_of_fits hfits _) hrunning)
    fun _ => Connection.progress_accepted fd

/-- A step that leaves the reactor running closes no connection for want of interests, if
the high watermark is positive. -/
theorem wanted_step {o : NetworkOptions} (hhigh : 0 < o.writeHighWatermarkBytes)
    {s : Session Q} (h : s.phase = .running → s.conn.Wanted) {event : SessionEvent Q}
    (hrunning : (s.step o event).phase = .running) : (s.step o event).conn.Wanted := by
  obtain ⟨hphase, ready, input, modityOk, registered, -, hconn⟩ := step_running hrunning
  rw [hconn]
  exact Connection.wanted_handleEvent hhigh (h hphase) .running ready input s.store

/-- The requests are executed as the stream asks for them exactly when no requested frame
ends inside the `recv` result that completes the first oversize header. The connection is
undisturbed, and has received the stream, or has stopped reading before its end without
being cut off. -/
theorem executed_iff_headerApart (o : NetworkOptions)
    (hfits : headerSize + maxFrameSize ≤ o.maxReadBufferBytes) (fd : Int) (store : Store Q)
    (events : List (SessionEvent Q)) (stream : Bytes) :
    let s := (start fd store).run o events
    s.phase = .running → ¬ s.conn.Disturbed → s.conn.stream <+: stream →
    (s.conn.stream = stream ∨ ¬ s.conn.Serving ∧ ¬ s.conn.CutOff) →
      (s.conn.executedPayloads = Connection.requestsOf stream ↔
        Connection.HeaderApart s.conn.trace.received) := by
  intro s hrunning hcalm hprefix hcomplete
  have hprogress : s.conn.Progress := progress_run hfits fd store events hrunning
  have hvacuous : (frameParser.drain s.conn.stream).rejected = false →
      Connection.HeaderApart s.conn.trace.received := Connection.headerApart_of_accepted
  obtain ⟨more, rfl⟩ := hprefix
  cases hprogress with
  | disturbed hdisturbed => exact absurd hdisturbed hcalm
  | serving hserving haccepted hbuffer hexecuted hquit =>
      have hall := hcomplete.resolve_right fun h => h.1 hserving
      refine iff_of_true ?_ (hvacuous haccepted)
      rw [← hall, hexecuted, Connection.requestsOf, Connection.throughQuit_of_not_any hquit]
  | quit hstopped haccepted hexecuted hquit =>
      refine iff_of_true ?_ (hvacuous haccepted)
      rw [hexecuted, Connection.requestsOf_append_of_quit hquit]
  | cutOff hstopped hcut haccepted hexecuted hquit =>
      have hall := hcomplete.resolve_right fun h => h.2 hcut
      refine iff_of_true ?_ (hvacuous haccepted)
      rw [← hall, hexecuted, Connection.requestsOf, Connection.throughQuit_of_not_any hquit]
  | @malformed before chunk hstopped hreceived haccepted hrejected hexecuted hquit =>
      have hstream : s.conn.stream = before.flatten ++ chunk := by
        rw [Connection.stream, hreceived]
        simp
      rw [hexecuted, hstream, Connection.requestsOf_append_of_rejected hrejected, eq_comm,
        Connection.requestsOf_append_iff haccepted hquit]
      rw [hreceived, Connection.headerApart_snoc_iff haccepted hrejected]

theorem executed_iff_headerApart_two_chunks :
    let s := fresh.run {} [readable (frameOf (ascii "PING")), readable [255, 255, 255, 255]]
    (s.conn.executedPayloads =
        Connection.requestsOf (frameOf (ascii "PING") ++ [255, 255, 255, 255]) ↔
      Connection.HeaderApart s.conn.trace.received) := by
  intro s
  refine executed_iff_headerApart {} (by decide) 5 Store.empty
    [readable (frameOf (ascii "PING")), readable [255, 255, 255, 255]] _ rfl ?_ ?_ (.inl rfl)
  · rintro ⟨cause, hcause, -⟩
    cases hcause
  · exact List.prefix_rfl

/-- A PING and a malformed header: in two results the PING is executed, in one it is lost. -/
theorem segmentation_matters :
    let apart := fresh.run {} [readable (frameOf (ascii "PING")), readable [255, 255, 255, 255]]
    let joined := fresh.run {} [readable (frameOf (ascii "PING") ++ [255, 255, 255, 255])]
    apart.conn.stream = joined.conn.stream ∧
      apart.conn.trace.causes = [] ∧ joined.conn.trace.causes = [] ∧
      apart.conn.executedPayloads = [ascii "PING"] ∧ joined.conn.executedPayloads = [] := by
  decide

end Session

end TinyKv
