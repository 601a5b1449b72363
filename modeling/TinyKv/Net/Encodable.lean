import TinyKv.Net.ReactorInvariants
import TinyKv.Net.Requests

/-!
# Responses fit a frame

The store is shared by the clients of all reactors, and swept by the main reactor. As
long as every change of it is a sweep or a command out of a decoded frame, no stored value
is so long that the response to a GET would not fit a frame, and `QueueResponse` never
meets a failing `Encode`. A reactor contributes only such changes itself.
-/

namespace TinyKv

open Foundation FrameCodec

variable {Q : ExpirationQueue}

namespace Store

/-- One change of the shared store: a command out of a frame, or a sweep. -/
inductive Change : Store Q → Store Q → Prop where
  | command (store : Store Q) (now : TimePoint) {payload : Bytes}
      (hfits : payload.length ≤ maxFrameSize) :
      Change store (store.execute now (CommandParser.parseCommand payload)).2
  | sweep {before after : Store Q} {now : TimePoint} {maxRecordsToProcess : Nat}
      {result : SweepResult}
      (h : before.state.sweepExpired now maxRecordsToProcess = .ok (result, after.state)) :
      Change before after

/-- Any number of changes, by whichever clients. -/
def Changed : Store Q → Store Q → Prop := Relation.ReflTransGen Change

theorem Small.change {before after : Store Q} (h : before.Small) (hchange : Change before after) :
    after.Small := by
  cases hchange with
  | command now hfits => exact (h.execute now hfits).1
  | sweep hsweep =>
      obtain ⟨result, state, hrun, hswept⟩ := KvStore.sweepExpired_spec before.wellFormed _ _
      rw [hsweep] at hrun
      cases hrun
      intro key entry hlook
      apply h key entry
      obtain heq | ⟨hnone, -⟩ := hswept.pruned key
      · rw [← heq]
        exact hlook
      · rw [hnone] at hlook
        cases hlook

theorem Small.changed {before after : Store Q} (h : before.Small)
    (hchanged : Changed before after) : after.Small := by
  induction hchanged with
  | refl => exact h
  | tail _ hchange ih => exact ih.change hchange

end Store

namespace Connection

/-- Every executed payload came in a frame, and its response fits one; the connection was
not closed for a response without a frame. -/
structure Encodable (conn : Connection) : Prop where
  executed : ∀ entry ∈ conn.trace.executed,
    entry.1.length ≤ maxFrameSize ∧ entry.2.length ≤ maxFrameSize
  encoded : .unencodable ∉ conn.trace.causes

/-- What the other threads contribute to an event: changes of the store, and a STATS text
that fits a frame. -/
def Ordinary (input : IoInput Q) : Prop :=
  ∀ i, (∀ store, Store.Changed store ((input.ambient i).interfere store)) ∧
    (input.ambient i).statsResponse.length ≤ maxFrameSize

theorem Encodable.markClosed {conn : Connection} (h : conn.Encodable) {cause : CloseCause}
    (hcause : cause ≠ .unencodable) : (conn.markClosed cause).Encodable where
  executed := h.executed
  encoded hmem := by
    obtain hmem | heq := List.mem_append.mp hmem
    · exact h.encoded hmem
    · exact hcause (List.mem_singleton.mp heq).symm

theorem Encodable.delivers {a b : Connection} (h : a.Encodable) (hab : Delivers a b) :
    b.Encodable where
  executed := by
    rw [hab.executed]
    exact h.executed
  encoded hmem := by
    obtain hold | hnew := hab.newCauses _ hmem
    · exact h.encoded hold
    · cases hnew

/-- A response that fits a frame is queued, or refused as the client is slow. -/
theorem Encodable.queueResponse {conn : Connection} (h : conn.Encodable) (o : NetworkOptions)
    {response : Bytes} (hfits : response.length ≤ maxFrameSize) :
    (conn.queueResponse o response).2.Encodable := by
  obtain ⟨cause, calls, hrefusal, -, heq⟩ | ⟨paused, calls, -, -, -, heq⟩ :=
    queueResponse_cases o conn response
  · rw [heq]
    have hcounted : ({ conn with calls := conn.calls ++ calls } : Connection).Encodable :=
      ⟨h.executed, h.encoded⟩
    obtain ⟨rfl, -⟩ | ⟨-, hlarge⟩ := hrefusal
    · exact hcounted.markClosed (by decide)
    · exact absurd hfits (Nat.not_le.mpr hlarge)
  · rw [heq]
    exact ⟨h.executed, h.encoded⟩

/-- The response to a command out of a frame fits a frame, and the command is a change of
the store. -/
theorem respond_encodable {ambient : Ambient Q} {store : Store Q} (hsmall : store.Small)
    (hstats : ambient.statsResponse.length ≤ maxFrameSize) {payload : Bytes}
    (hfits : payload.length ≤ maxFrameSize) :
    (respond ambient store (CommandParser.parseCommand payload)).1.length ≤ maxFrameSize ∧
      Store.Changed store (respond ambient store (CommandParser.parseCommand payload)).2 := by
  unfold respond
  split
  · exact ⟨hstats, .refl⟩
  next htype =>
    constructor
    · exact (hsmall.execute ambient.now hfits).2.resolve_left htype
    · exact .single (.command store ambient.now hfits)

/-- One payload; the store is changed by the other threads, and then by its command. -/
theorem encodable_processPayload {conn : Connection} (h : conn.Encodable) (o : NetworkOptions)
    {ambient : Ambient Q} {store : Store Q} (hsmall : store.Small)
    (hinterfere : Store.Changed store (ambient.interfere store))
    (hstats : ambient.statsResponse.length ≤ maxFrameSize) {payload : Bytes}
    (hfits : payload.length ≤ maxFrameSize) :
    (conn.processPayload o ambient store payload).2.1.Encodable ∧
      Store.Changed store (conn.processPayload o ambient store payload).2.2 := by
  obtain ⟨hresponse, hchanged⟩ :=
    respond_encodable (hsmall.changed hinterfere) hstats hfits
  obtain ⟨before, -, heq⟩ := processPayload_eq o ambient store conn payload
  have hexecuted (calls : List MetricCall) :
      (conn.withExecuted payload (payloadResult ambient store payload).1 calls).Encodable := by
    refine ⟨fun entry hmem => ?_, h.encoded⟩
    obtain hmem | hmem := List.mem_append.mp hmem
    · exact h.executed entry hmem
    · rw [List.mem_singleton.mp hmem]
      exact ⟨hfits, hresponse⟩
  have hqueued := (hexecuted before).queueResponse o hresponse
  have hstore : Store.Changed store (payloadResult ambient store payload).2 :=
    hinterfere.trans hchanged
  rw [heq]
  change Encodable (queueResponse o _ (payloadResult ambient store payload).1).2 at hqueued
  generalize queueResponse o _ (payloadResult ambient store payload).1 = result at hqueued ⊢
  obtain ⟨queued, after⟩ := result
  cases queued with
  | false => exact ⟨hqueued, hstore⟩
  | true =>
      cases isQuit payload with
      | false => exact ⟨hqueued, hstore⟩
      | true => exact ⟨⟨hqueued.executed, hqueued.encoded⟩, hstore⟩

/-- A batch of payloads; by induction on it. -/
theorem encodable_processPayloads (o : NetworkOptions) {payloads : List Bytes}
    (hfits : ∀ payload ∈ payloads, payload.length ≤ maxFrameSize) {ambient : Nat → Ambient Q}
    (hordinary : ∀ i, (∀ store, Store.Changed store ((ambient i).interfere store)) ∧
      (ambient i).statsResponse.length ≤ maxFrameSize)
    {store : Store Q} (hsmall : store.Small) {conn : Connection} (h : conn.Encodable) :
    (conn.processPayloads o ambient store payloads).1.Encodable ∧
      Store.Changed store (conn.processPayloads o ambient store payloads).2 := by
  induction payloads generalizing ambient store conn with
  | nil => exact ⟨h, .refl⟩
  | cons payload rest ih =>
      have hfirst := encodable_processPayload h o hsmall ((hordinary 0).1 store) (hordinary 0).2
        (hfits payload (List.mem_cons_self ..))
      unfold Connection.processPayloads
      generalize conn.processPayload o (ambient 0) store payload = result at hfirst ⊢
      obtain ⟨continues, conn', store'⟩ := result
      obtain ⟨hconn, hchanged⟩ := hfirst
      cases continues with
      | false => exact ⟨hconn, hchanged⟩
      | true =>
          have hrest := ih (fun p hp => hfits p (List.mem_cons_of_mem _ hp))
            (fun i => hordinary (i + 1)) (hsmall.changed hchanged) hconn
          exact ⟨hrest.1, hchanged.trans hrest.2⟩

theorem encodable_receiveBytes {conn : Connection} (h : conn.Encodable) (o : NetworkOptions)
    {input : IoInput Q} (hordinary : Ordinary input) {store : Store Q} (hsmall : store.Small)
    (bytes : Bytes) :
    (conn.receiveBytes o input.ambient store bytes).1.Encodable ∧
      Store.Changed store (conn.receiveBytes o input.ambient store bytes).2 := by
  have hstate (call : MetricCall) : (conn.withInput bytes call).Encodable :=
    ⟨h.executed, h.encoded⟩
  cases hrejected : (frameParser.drain (conn.readBuffer ++ bytes)).rejected with
  | true =>
      rw [receiveBytes_rejected hrejected]
      have hqueued := (hstate .onProtocolError).queueResponse o
        (show (ascii "-ERR protocol error").length ≤ maxFrameSize by decide)
      simp only [finalResponse]
      split
      · exact ⟨⟨hqueued.executed, hqueued.encoded⟩, .refl⟩
      · exact ⟨hqueued, .refl⟩
  | false =>
      rw [receiveBytes_accepted hrejected]
      exact encodable_processPayloads o (drain_items_le _) hordinary hsmall (hstate _)

theorem encodable_rejectOversizedReadBuffer {conn : Connection} (h : conn.Encodable)
    (o : NetworkOptions) : (conn.rejectOversizedReadBuffer o).Encodable := by
  have hqueued := h.queueResponse o
    (show (ascii "-ERR request buffer too large").length ≤ maxFrameSize by decide)
  rw [rejectOversizedReadBuffer_eq]
  split
  · exact ⟨hqueued.executed, hqueued.encoded⟩
  · exact hqueued.markClosed (by decide)

theorem encodable_handleClientRead {conn : Connection} (h : conn.Encodable) (o : NetworkOptions)
    {input : IoInput Q} (hordinary : Ordinary input) {store : Store Q} (hsmall : store.Small) :
    (conn.handleClientRead o input store).1.Encodable ∧
      Store.Changed store (conn.handleClientRead o input store).2 := by
  by_cases hreading : conn.Reading
  swap
  · rw [handleClientRead_refused hreading]
    exact ⟨h, .refl⟩
  have houtcome := handleClientRead_outcome hreading o input store
  generalize conn.handleClientRead o input store = result at houtcome ⊢
  cases houtcome with
  | oversized hfull => exact ⟨encodable_rejectOversizedReadBuffer h o, .refl⟩
  | ended hroom hrecv hnil =>
      rw [receiveEnd_eq]
      exact ⟨(h.markClosed (by decide)).markClosed (by decide), .refl⟩
  | bytes hroom hrecv hnil => exact encodable_receiveBytes h o hordinary hsmall _
  | wouldBlock hrecv => exact ⟨h, .refl⟩
  | failed hrecv => exact ⟨h.markClosed (by decide), .refl⟩

theorem encodable_handleEvent {conn : Connection} (h : conn.Encodable) (o : NetworkOptions)
    (state : ServerState) (events : IoEvent) {input : IoInput Q} (hordinary : Ordinary input)
    {store : Store Q} (hsmall : store.Small) :
    (conn.handleEvent o state events input store).1.1.Encodable ∧
      Store.Changed store (conn.handleEvent o state events input store).2 := by
  rw [handleEvent_cases]
  split
  · exact ⟨h.markClosed (by decide), .refl⟩
  split
  · obtain ⟨hread, hchanged⟩ := encodable_handleClientRead h o hordinary hsmall
    exact ⟨hread.delivers (delivers_afterRead o events input _), hchanged⟩
  · exact ⟨h.delivers (delivers_afterRead o events input conn), .refl⟩

end Connection

namespace SubReactor

open Connection

/-- The handlers answer with frames, and change the store by commands out of frames. -/
theorem encodable_invariant (o : NetworkOptions) :
    ConnectionInvariant (Q := Q) o Ordinary (Store.Changed Store.empty) Connection.Encodable where
  event conn state events input store hconn hstore hordinary := by
    obtain ⟨hafter, hchanged⟩ :=
      encodable_handleEvent hconn o state events hordinary (Store.small_empty.changed hstore)
    exact ⟨hafter, hstore.trans hchanged⟩
  drain conn hconn := hconn.delivers (delivers_beginDrain o conn)
  register conn events hconn := ⟨hconn.executed, hconn.encoded⟩
  close conn reason hconn := by
    cases reason with
    | forceStop => exact hconn.markClosed (by decide)
    | deadline => exact hconn.markClosed (by decide)
  fresh fd events := ⟨fun entry hmem => (by cases hmem), fun hmem => (by cases hmem)⟩

/-- Whatever clients do to the store, its values leave room for the marker of a GET, and
every command on it is answered with an encodable response. A reactor changes the store
only so, every response it has computed fits a frame, and it has closed no connection for
a response without one. -/
theorem responses_encodable (o : NetworkOptions) (backend : PollerBackend) (controlFd : Int)
    (actions : List (Action Q)) (h : ∀ action ∈ actions, action.Answers Ordinary) :
    (∀ store : Store Q, Store.Changed Store.empty store →
      (∀ key entry, store.state.data.lookup key = some entry →
        entry.value.length ≤ maxFrameSize - 6) ∧
      ∀ (ambient : Ambient Q) (payload : Bytes), payload.length ≤ maxFrameSize →
        ambient.statsResponse.length ≤ maxFrameSize →
          (respond ambient store (CommandParser.parseCommand payload)).1.length ≤ maxFrameSize ∧
          ∃ frame,
            encode (respond ambient store (CommandParser.parseCommand payload)).1 = .ok frame) ∧
    let r := (created backend controlFd (Store.empty : Store Q)).run o actions
    Store.Changed Store.empty r.store ∧
    ∀ conn, conn ∈ r.departed ∨ (∃ fd, r.clients.lookup fd = some conn) →
      (∀ payload response, (payload, response) ∈ conn.trace.executed →
        response.length ≤ maxFrameSize) ∧
      .unencodable ∉ conn.trace.causes := by
  constructor
  · intro store hstore
    have hsmall := Store.small_empty.changed hstore
    constructor
    · intro key entry hlook
      exact Nat.le_sub_of_add_le (hsmall key entry hlook)
    · intro ambient payload hpayload hstats
      have hresponse := (respond_encodable hsmall hstats hpayload).1
      exact ⟨hresponse, _, encode_eq hresponse⟩
  · intro r
    have hall : Everywhere (Store.Changed Store.empty) Connection.Encodable r :=
      (encodable_invariant o).run .refl h
    refine ⟨hall.store, fun conn hconn => ?_⟩
    have hencodable : conn.Encodable := by
      obtain hmem | ⟨fd, hlook⟩ := hconn
      · exact hall.departed conn hmem
      · exact hall.clients fd conn hlook
    exact ⟨fun payload response hmem => (hencodable.executed _ hmem).2, hencodable.encoded⟩

/-- A client stores a value. -/
def storeValue : List (Action sortedExpirations) :=
  [.start true true, .enqueClient 7, .iterate (readPing [⟨3, { read := true }⟩]),
    .iterate (calmly [⟨7, { read := true }⟩] (.bytes (frameOf (ascii "SET k v"))) .wouldBlock 0)]

theorem responses_encodable_set :
    let r := (created .epoll 3 Store.empty).run {} storeValue
    ∃ conn, r.clients.lookup 7 = some conn ∧
      conn.trace.executed = [(ascii "SET k v", ascii "+OK")] ∧
      .unencodable ∉ conn.trace.causes := by
  intro r
  have hanswers : ∀ action ∈ storeValue, action.Answers Ordinary := by
    intro action hmem
    simp only [storeValue, List.mem_cons, List.not_mem_nil, or_false] at hmem
    obtain rfl | rfl | rfl | rfl := hmem
    · trivial
    · trivial
    · exact fun _ _ => ⟨fun _ => .refl, Nat.zero_le _⟩
    · exact fun _ _ => ⟨fun _ => .refl, Nat.zero_le _⟩
  have hsome : (r.clients.lookup 7).map (·.trace.executed) =
      some [(ascii "SET k v", ascii "+OK")] := by
    decide +kernel
  obtain ⟨conn, hlook, hexecuted⟩ := Option.map_eq_some_iff.mp hsome
  exact ⟨conn, hlook, hexecuted, ((responses_encodable {} .epoll 3 storeValue hanswers).2.2 conn
    (.inr ⟨7, hlook⟩)).2⟩

end SubReactor

end TinyKv
