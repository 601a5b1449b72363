import TinyKv.Core.ExecutorRefinement
import TinyKv.Net.Descriptors

/-!
# All clients see one map

The clients of a sub reactor and the other threads use one store. What happens to it is
told by one history: the operations of the other threads and the requests of all clients,
in the order in which they reach the store and with the readings of the clock they have
made. Every client finds its own requests there in order, and with a clock that does not go
back every response is what the map with deadlines answers after all that was before.
-/

namespace TinyKv

open Foundation FrameCodec KvStore

variable {Q : ExpirationQueue}

/-! ### Histories of a store -/

/-- What happens to the store: an operation of another thread, or a request of the client on
a descriptor with its response. -/
inductive StoreEvent where
  | operation (op : Op)
  | request (fd : Int) (payload response : Bytes)
deriving DecidableEq

/-- What has happened to the store, each event with its reading of the clock, oldest first. -/
abbrev History := List (TimePoint × StoreEvent)

namespace History

/-- The map after one event. -/
def advance (ref : Reference) (e : TimePoint × StoreEvent) : Reference :=
  match e.2 with
  | .operation op => (ref.perform e.1 op).2
  | .request _ payload _ => (ref.execute e.1 (CommandParser.parseCommand payload)).2

/-- The map a history leads to. -/
def reference (history : History) : Reference := history.foldl advance TtlMap.empty

/-- The payload and the response of a request on a descriptor. -/
def request? (fd : Int) (e : TimePoint × StoreEvent) : Option (Bytes × Bytes) :=
  match e.2 with
  | .operation _ => none
  | .request fd' payload response => if fd' = fd then some (payload, response) else none

/-- The requests on a descriptor. -/
def requests (history : History) (fd : Int) : List (Bytes × Bytes) :=
  history.filterMap (request? fd)

/-- Every response but that of STATS is the answer of the map. -/
def Consistent (history : History) : Prop :=
  ∀ before after now fd payload response,
    history = before ++ (now, .request fd payload response) :: after →
      (CommandParser.parseCommand payload).type ≠ .stats →
        response = ((reference before).execute now (CommandParser.parseCommand payload)).1

/-- The clock readings do not decrease. -/
def Ordered (history : History) : Prop := (history.map Prod.fst).Pairwise (· ≤ ·)

/-- The history is consistent and ordered, and from its end on the store represents its map. -/
structure Explains (history : History) (store : KvStore Q) : Prop where
  ordered : Ordered history
  consistent : Consistent history
  represents : ∀ now, (∀ e ∈ history, e.1 ≤ now) →
    Represents now store.data (reference history)

@[simp] theorem requests_append (history more : History) (fd : Int) :
    requests (history ++ more) fd = requests history fd ++ requests more fd :=
  List.filterMap_append

theorem reference_concat (history : History) (e : TimePoint × StoreEvent) :
    reference (history ++ [e]) = advance (reference history) e := by
  simp [reference]

theorem Ordered.concat {history : History} (h : Ordered history)
    {e : TimePoint × StoreEvent} (hlast : ∀ x ∈ history, x.1 ≤ e.1) :
    Ordered (history ++ [e]) := by
  rw [Ordered, List.map_append, List.pairwise_append]
  refine ⟨h, List.pairwise_singleton _ _, fun t ht t' ht' => ?_⟩
  obtain ⟨x, hx, rfl⟩ := List.mem_map.mp ht
  obtain rfl := List.mem_singleton.mp ht'
  exact hlast x hx

/-- One more event keeps a history consistent when its response is the answer of the map. -/
theorem Consistent.concat {history : History} (h : Consistent history)
    {e : TimePoint × StoreEvent}
    (hresponse : ∀ now fd payload response, e = (now, .request fd payload response) →
      (CommandParser.parseCommand payload).type ≠ .stats →
        response = ((reference history).execute now (CommandParser.parseCommand payload)).1) :
    Consistent (history ++ [e]) := by
  intro before after now fd payload response heq htype
  obtain rfl | ⟨after, last, rfl⟩ := List.eq_nil_or_concat' after
  · obtain ⟨rfl, hlast⟩ := List.append_inj' heq rfl
    exact hresponse now fd payload response (List.cons.inj hlast).1 htype
  · have hinit : history ++ [e] =
        (before ++ (now, .request fd payload response) :: after) ++ [last] := by
      rw [heq, List.append_assoc]
      rfl
    obtain ⟨rfl, -⟩ := List.append_inj' hinit rfl
    exact h before after now fd payload response rfl htype

theorem explains_empty : Explains [] (KvStore.empty : KvStore Q) := by
  refine ⟨List.Pairwise.nil, ?_, fun now _ => Represents.empty now⟩
  intro before after now fd payload response heq
  simp at heq

/-- The common part of the two kinds of events: the map before and after the event. -/
theorem Explains.concat {history : History} {store store' : KvStore Q}
    (h : Explains history store) {e : TimePoint × StoreEvent}
    (hlast : ∀ x ∈ history, x.1 ≤ e.1)
    (hnext : Represents e.1 store.data (reference history) →
      (∀ now fd payload response, e = (now, .request fd payload response) →
        (CommandParser.parseCommand payload).type ≠ .stats →
          response =
            ((reference history).execute now (CommandParser.parseCommand payload)).1) ∧
      Represents e.1 store'.data (advance (reference history) e)) :
    Explains (history ++ [e]) store' := by
  obtain ⟨hresponse, hafter⟩ := hnext (h.represents e.1 hlast)
  refine ⟨h.ordered.concat hlast, h.consistent.concat hresponse, fun now hnow => ?_⟩
  rw [reference_concat]
  exact hafter.later (hnow e (by simp))

theorem Explains.operation {history : History} {store store' : KvStore Q}
    (h : Explains history store) (wf : WellFormed store) {now : TimePoint} {op : Op}
    {reply : Reply} (hrun : store.perform now op = .ok (reply, store'))
    (hlast : ∀ x ∈ history, x.1 ≤ now) :
    Explains (history ++ [(now, .operation op)]) store' := by
  apply h.concat hlast
  intro hrepresents
  obtain ⟨reply', after, hrun', -, -, hafter⟩ := perform_refines wf hrepresents op
  rw [hrun] at hrun'
  cases hrun'
  exact ⟨nofun, hafter⟩

/-- The operations of other threads as events. -/
def operations (ops : List (TimePoint × Op)) : History :=
  ops.map fun e => (e.1, .operation e.2)

@[simp] theorem requests_operations (ops : List (TimePoint × Op)) (fd : Int) :
    requests (operations ops) fd = [] := by
  simp [operations, requests, request?]

@[simp] theorem readings_operations (ops : List (TimePoint × Op)) :
    (operations ops).map Prod.fst = ops.map Prod.fst := by
  simp [operations]

/-- The operations of the other threads between two requests; by induction on them. -/
theorem Explains.operations (ops : List (TimePoint × Op)) {history : History}
    {store store' : KvStore Q} (h : Explains history store) (wf : WellFormed store)
    {replies : List Reply} (hrun : store.performAll ops = .ok (replies, store'))
    (hordered : (ops.map Prod.fst).Pairwise (· ≤ ·))
    (hlast : ∀ x ∈ history, ∀ e ∈ ops, x.1 ≤ e.1) :
    Explains (history ++ History.operations ops) store' := by
  induction ops generalizing history store replies with
  | nil =>
      cases hrun
      simpa [History.operations] using h
  | cons op rest ih =>
      obtain ⟨now, op⟩ := op
      obtain ⟨hnow, hordered⟩ := List.pairwise_cons.mp hordered
      obtain ⟨reply, mid, hop, hmid⟩ := perform_wellFormed wf now op
      obtain ⟨replies', after, hrest, -⟩ := performAll_wellFormed rest hmid
      have hafter : after = store' := by
        simp only [performAll, hop, hrest, ok_bind, KvStore.pure_eq_ok, Except.ok.injEq,
          Prod.mk.injEq] at hrun
        exact hrun.2
      subst hafter
      have hfirst := h.operation wf hop fun x hx => hlast x hx _ (List.mem_cons_self ..)
      have hnext := ih hfirst hmid hrest hordered fun x hx e he => ?_
      · simpa [History.operations] using hnext
      · obtain hx | hx := List.mem_append.mp hx
        · exact hlast x hx e (List.mem_cons_of_mem _ he)
        · obtain rfl := List.mem_singleton.mp hx
          exact hnow e.1 (List.mem_map_of_mem he)

/-- A request of a client: the store answers it as the map does. -/
theorem Explains.request {history : History} {store : Store Q}
    (h : Explains history store.state) (ambient : Ambient Q) (fd : Int) (payload : Bytes)
    (hlast : ∀ x ∈ history, x.1 ≤ ambient.now) :
    Explains
      (history ++ [(ambient.now, .request fd payload
        (Connection.respond ambient store (CommandParser.parseCommand payload)).1)])
      (Connection.respond ambient store (CommandParser.parseCommand payload)).2.state := by
  apply h.concat hlast
  intro hrepresents
  obtain ⟨hresponse, hafter⟩ :=
    store.execute_refines hrepresents (CommandParser.parseCommand payload)
  unfold Connection.respond
  split
  · next hstats =>
    constructor
    · rintro now fd' payload' response heq htype
      cases heq
      exact absurd hstats htype
    · have hplain : (CommandParser.parseCommand payload).op? = none := by
        simp [Command.op?, hstats]
      simpa only [advance, Reference.execute, hplain] using hrepresents
  · constructor
    · rintro now fd' payload' response heq htype
      cases heq
      exact hresponse htype
    · exact hafter

end History

/-! ### The clock of a run -/

/-- Readings of a clock that does not go back, between two instants. -/
structure Within (before after : TimePoint) (readings : List TimePoint) : Prop where
  le : before ≤ after
  ordered : readings.Pairwise (· ≤ ·)
  lower : ∀ t ∈ readings, before ≤ t
  upper : ∀ t ∈ readings, t ≤ after

theorem Within.nil {before after : TimePoint} (h : before ≤ after) : Within before after [] :=
  ⟨h, List.Pairwise.nil, fun t ht => (by cases ht), fun t ht => (by cases ht)⟩

theorem Within.append {before mid after : TimePoint} {first last : List TimePoint}
    (hfirst : Within before mid first) (hlast : Within mid after last) :
    Within before after (first ++ last) := by
  refine ⟨Int.le_trans hfirst.le hlast.le, ?_, fun t ht => ?_, fun t ht => ?_⟩
  · exact List.pairwise_append.mpr ⟨hfirst.ordered, hlast.ordered, fun t ht t' ht' =>
      Int.le_trans (hfirst.upper t ht) (hlast.lower t' ht')⟩
  · obtain ht | ht := List.mem_append.mp ht
    · exact hfirst.lower t ht
    · exact Int.le_trans hfirst.le (hlast.lower t ht)
  · obtain ht | ht := List.mem_append.mp ht
    · exact Int.le_trans (hfirst.upper t ht) hlast.le
    · exact hlast.upper t ht

theorem Within.singleton {before t after : TimePoint} (hbefore : before ≤ t) (hafter : t ≤ after) :
    Within before after [t] :=
  ⟨Int.le_trans hbefore hafter, List.pairwise_singleton _ _,
    fun _ ht => (List.mem_singleton.mp ht) ▸ hbefore,
    fun _ ht => (List.mem_singleton.mp ht) ▸ hafter⟩

theorem Within.later {before mid after : TimePoint} {readings : List TimePoint}
    (h : Within before mid readings) (hle : mid ≤ after) : Within before after readings :=
  ⟨Int.le_trans h.le hle, h.ordered, h.lower, fun t ht => Int.le_trans (h.upper t ht) hle⟩

/-- Inputs that are taken one after another while the clock goes from one instant to
another. -/
def Passing {α : Type*} (during : TimePoint → α → TimePoint → Prop) (before : TimePoint)
    (inputs : Nat → α) (after : TimePoint) : Prop :=
  ∃ clock : Nat → TimePoint, clock 0 = before ∧
    ∀ i, during (clock i) (inputs i) (clock (i + 1)) ∧ clock i ≤ after

theorem Passing.le {α : Type*} {during : TimePoint → α → TimePoint → Prop}
    {before after : TimePoint} {inputs : Nat → α} (h : Passing during before inputs after) :
    before ≤ after := by
  obtain ⟨clock, rfl, hclock⟩ := h
  exact (hclock 0).2

/-- The first input is taken, and the others go on from the instant reached. -/
theorem Passing.next {α : Type*} {during : TimePoint → α → TimePoint → Prop}
    {before after : TimePoint} {inputs : Nat → α} (h : Passing during before inputs after) :
    ∃ mid, during before (inputs 0) mid ∧ Passing during mid (fun i => inputs (i + 1)) after := by
  obtain ⟨clock, rfl, hclock⟩ := h
  exact ⟨clock 1, (hclock 0).1, fun i => clock (i + 1), rfl, fun i => hclock (i + 1)⟩

/-- An input and then the others. -/
theorem Passing.cons {α : Type*} {during : TimePoint → α → TimePoint → Prop}
    {before mid after : TimePoint} {inputs : Nat → α} (hfirst : during before (inputs 0) mid)
    (hle : before ≤ after) (hrest : Passing during mid (fun i => inputs (i + 1)) after) :
    Passing during before inputs after := by
  obtain ⟨clock, rfl, hclock⟩ := hrest
  refine ⟨fun i => if i = 0 then before else clock (i - 1), rfl, fun i => ?_⟩
  cases i with
  | zero => exact ⟨hfirst, hle⟩
  | succ i => exact hclock i

/-- Inputs that all take no time. -/
theorem Passing.still {α : Type*} {during : TimePoint → α → TimePoint → Prop} {now : TimePoint}
    {inputs : Nat → α} (h : ∀ i, during now (inputs i) now) : Passing during now inputs now :=
  ⟨fun _ => now, rfl, fun i => ⟨h i, Int.le_refl now⟩⟩

/-- What the other threads do to the store before a payload is a run of these operations. -/
def Ambient.Does (ambient : Ambient Q) (ops : List (TimePoint × Op)) : Prop :=
  ∀ store : Store Q, ∃ replies,
    store.state.performAll ops = .ok (replies, (ambient.interfere store).state)

/-- The other threads use the operations of the store, and they and then the payload read the
clock between the two instants. -/
def Ambient.During (before : TimePoint) (ambient : Ambient Q) (after : TimePoint) : Prop :=
  ∃ ops, ambient.Does ops ∧ Within before ambient.now (ops.map Prod.fst) ∧ ambient.now ≤ after

/-- So it is with all payloads of a ready event. -/
def IoInput.During (before : TimePoint) (input : IoInput Q) (after : TimePoint) : Prop :=
  Passing Ambient.During before input.ambient after

/-- In no step of the run a reading of the clock lies before an earlier one. -/
def SubReactor.Forward : TimePoint → List (SubReactor.Action Q) → Prop
  | _, [] => True
  | before, .iterate input :: rest =>
      ∃ after, Passing IoInput.During before input.io after ∧ Forward after rest
  | before, _ :: rest => Forward before rest

/-! ### The events of a run -/

/-- The events of the payloads of one ready event. Each payload comes after the operations
the other threads have done since the one before. -/
inductive PayloadEvents (fd : Int) : (Nat → Ambient Q) → History → Prop where
  | none (ambient : Nat → Ambient Q) : PayloadEvents fd ambient []
  | next {ambient : Nat → Ambient Q} {ops : List (TimePoint × Op)} {more : History}
      (payload response : Bytes) (hops : (ambient 0).Does ops)
      (tail : PayloadEvents fd (fun i => ambient (i + 1)) more) :
      PayloadEvents fd ambient
        (History.operations ops ++ ((ambient 0).now, .request fd payload response) :: more)

/-- The events of the ready descriptors in their order, up to an exception. -/
inductive ReadyEvents : List ReadyEvent → (Nat → IoInput Q) → History → Prop where
  | none (ready : List ReadyEvent) (io : Nat → IoInput Q) : ReadyEvents ready io []
  | next {event : ReadyEvent} {rest : List ReadyEvent} {io : Nat → IoInput Q}
      {first more : History} (head : PayloadEvents event.fd (io 0).ambient first)
      (tail : ReadyEvents rest (fun i => io (i + 1)) more) :
      ReadyEvents (event :: rest) io (first ++ more)

theorem PayloadEvents.requests_of_ne {fd fd' : Int} {ambient : Nat → Ambient Q}
    {more : History} (h : PayloadEvents fd ambient more) (hne : fd' ≠ fd) :
    History.requests more fd' = [] := by
  induction h with
  | none => rfl
  | next payload response hops tail ih =>
      rw [History.requests_append, History.requests_operations, List.nil_append]
      simpa [History.requests, History.request?, hne.symm] using ih

/-! ### The handlers of a connection -/

namespace Connection

/-- What a handler does to a connection and the store between two instants, told by the
events of the payloads it executes. -/
def Tells (fd : Int) (ambient : Nat → Ambient Q) (start stop : TimePoint)
    (before after : Connection × Store Q) : Prop :=
  ∃ more : History, PayloadEvents fd ambient more ∧ Within start stop (more.map Prod.fst) ∧
    after.1.trace.executed = before.1.trace.executed ++ History.requests more fd ∧
    ∀ history, History.Explains history before.2.state → (∀ e ∈ history, e.1 ≤ start) →
      History.Explains (history ++ more) after.2.state

section Tells

variable {fd : Int} {ambient : Nat → Ambient Q} {start stop : TimePoint}

theorem Tells.refl (h : start ≤ stop) (state : Connection × Store Q) :
    Tells fd ambient start stop state state :=
  ⟨[], .none ambient, .nil h, by simp [History.requests], fun history hexplains _ => by
    simpa using hexplains⟩

/-- What executes nothing before or after the handler does not matter. -/
theorem Tells.congr {before after before' after' : Connection × Store Q}
    (h : Tells fd ambient start stop before after)
    (hbefore : before'.1.trace.executed = before.1.trace.executed) (hstore : before'.2 = before.2)
    (hafter : after'.1.trace.executed = after.1.trace.executed) (hstore' : after'.2 = after.2) :
    Tells fd ambient start stop before' after' := by
  obtain ⟨more, hevents, hwithin, hexecuted, hexplains⟩ := h
  refine ⟨more, hevents, hwithin, ?_, ?_⟩
  · rw [hafter, hexecuted, hbefore]
  · rw [hstore, hstore']
    exact hexplains

theorem Tells.of_executed (h : start ≤ stop) {before after : Connection}
    (hexecuted : after.trace.executed = before.trace.executed) (store : Store Q) :
    Tells fd ambient start stop (before, store) (after, store) :=
  (Tells.refl h (before, store)).congr rfl rfl hexecuted rfl

/-- One payload and the operations before it, then the rest of the payloads. -/
theorem Tells.next {mid : TimePoint} {a b c : Connection × Store Q} {ops : List (TimePoint × Op)}
    {payload response : Bytes} (hops : (ambient 0).Does ops)
    (hwithin : Within start (ambient 0).now (ops.map Prod.fst)) (hnow : (ambient 0).now ≤ mid)
    (hexecuted : b.1.trace.executed = a.1.trace.executed ++ [(payload, response)])
    (hfirst : ∀ history, History.Explains history a.2.state → (∀ e ∈ history, e.1 ≤ start) →
      History.Explains (history ++ (History.operations ops ++
        [((ambient 0).now, .request fd payload response)])) b.2.state)
    (hrest : Tells fd (fun i => ambient (i + 1)) mid stop b c) :
    Tells fd ambient start stop a c := by
  obtain ⟨more, hevents, hmore, hexecuted', hexplains⟩ := hrest
  have heq : History.operations ops ++ ((ambient 0).now, .request fd payload response) :: more =
      (History.operations ops ++ [((ambient 0).now, .request fd payload response)]) ++ more := by
    simp
  have hreadings : Within start mid ((History.operations ops ++
      [((ambient 0).now, StoreEvent.request fd payload response)]).map Prod.fst) := by
    rw [List.map_append, History.readings_operations]
    exact hwithin.append (.singleton (Int.le_refl _) hnow)
  refine ⟨_, .next payload response hops hevents, ?_, ?_, fun history h hbound => ?_⟩
  · rw [heq, List.map_append]
    exact hreadings.append hmore
  · rw [hexecuted', hexecuted, heq, History.requests_append, History.requests_append,
      History.requests_operations]
    simp [History.requests, History.request?]
  · rw [heq, ← List.append_assoc]
    apply hexplains _ (hfirst history h hbound)
    intro e he
    obtain he | he := List.mem_append.mp he
    · exact Int.le_trans (hbound e he) hreadings.le
    · exact hreadings.upper e.1 (List.mem_map_of_mem he)

end Tells

/-- Whether its response is queued or not, a payload is executed once. -/
theorem processPayload_executed (o : NetworkOptions) (ambient : Ambient Q) (store : Store Q)
    (conn : Connection) (payload : Bytes) :
    (conn.processPayload o ambient store payload).2.1.trace.executed =
        conn.trace.executed ++ [(payload, (payloadResult ambient store payload).1)] ∧
      (conn.processPayload o ambient store payload).2.2 =
        (payloadResult ambient store payload).2 := by
  rcases processPayload_cases o ambient store conn payload with
    ⟨cause, calls, -, -, heq⟩ | ⟨paused, before, calls, -, -, -, -, heq⟩
  · rw [heq]
    exact ⟨rfl, rfl⟩
  · rw [heq]
    exact ⟨rfl, rfl⟩

/-- The store after a payload is explained by the operations of the other threads and then
the request. -/
theorem explains_payloadResult (fd : Int) {ambient : Ambient Q} {ops : List (TimePoint × Op)}
    (hops : ambient.Does ops) {start : TimePoint}
    (hwithin : Within start ambient.now (ops.map Prod.fst)) {store : Store Q} (payload : Bytes)
    {history : History} (h : History.Explains history store.state)
    (hbound : ∀ e ∈ history, e.1 ≤ start) :
    History.Explains (history ++ (History.operations ops ++
      [(ambient.now, .request fd payload (payloadResult ambient store payload).1)]))
      (payloadResult ambient store payload).2.state := by
  obtain ⟨replies, hrun⟩ := hops store
  have hoperations := h.operations ops store.wellFormed hrun hwithin.ordered fun x hx e he =>
    Int.le_trans (hbound x hx) (hwithin.lower e.1 (List.mem_map_of_mem he))
  rw [← List.append_assoc]
  apply hoperations.request ambient fd payload
  intro x hx
  obtain hx | hx := List.mem_append.mp hx
  · exact Int.le_trans (hbound x hx) hwithin.le
  · apply hwithin.upper
    rw [← History.readings_operations]
    exact List.mem_map_of_mem hx

/-- A batch of payloads; by induction on it. -/
theorem tells_processPayloads (o : NetworkOptions) (fd : Int) (payloads : List Bytes)
    {ambient : Nat → Ambient Q} {start stop : TimePoint}
    (hambient : Passing Ambient.During start ambient stop) (store : Store Q)
    (conn : Connection) :
    Tells fd ambient start stop (conn, store) (conn.processPayloads o ambient store payloads) := by
  induction payloads generalizing ambient start store conn with
  | nil => exact .refl hambient.le (conn, store)
  | cons payload rest ih =>
      obtain ⟨mid, ⟨ops, hops, hwithin, hnow⟩, hrest⟩ := hambient.next
      obtain ⟨hexecuted, hstore⟩ := processPayload_executed o (ambient 0) store conn payload
      have hfirst : ∀ history, History.Explains history store.state →
          (∀ e ∈ history, e.1 ≤ start) →
            History.Explains (history ++ (History.operations ops ++ [((ambient 0).now,
              .request fd payload (payloadResult (ambient 0) store payload).1)]))
              (conn.processPayload o (ambient 0) store payload).2.2.state := by
        intro history h hbound
        rw [hstore]
        exact explains_payloadResult fd hops hwithin payload h hbound
      unfold processPayloads
      generalize conn.processPayload o (ambient 0) store payload = result at hexecuted hfirst ⊢
      obtain ⟨continues, conn', store'⟩ := result
      cases continues with
      | false => exact .next hops hwithin hnow hexecuted hfirst (.refl hrest.le (conn', store'))
      | true => exact .next hops hwithin hnow hexecuted hfirst (ih hrest store' conn')

theorem queueResponse_executed (o : NetworkOptions) (conn : Connection) (response : Bytes) :
    (conn.queueResponse o response).2.trace.executed = conn.trace.executed := by
  rcases queueResponse_cases o conn response with
    ⟨cause, calls, -, -, heq⟩ | ⟨paused, calls, -, -, -, heq⟩
  · rw [heq]
    rfl
  · rw [heq]
    rfl

section Handlers

variable (o : NetworkOptions) (fd : Int) {input : IoInput Q} {start stop : TimePoint}
  (hinput : input.During start stop)
include hinput

theorem tells_receiveBytes (store : Store Q) (conn : Connection) (bytes : Bytes) :
    Tells fd input.ambient start stop (conn, store)
      (conn.receiveBytes o input.ambient store bytes) := by
  cases hrejected : (frameParser.drain (conn.readBuffer ++ bytes)).rejected with
  | true =>
      rw [receiveBytes_rejected hrejected]
      apply Tells.of_executed hinput.le
      unfold finalResponse
      have hqueued := queueResponse_executed o (conn.withInput bytes .onProtocolError)
        (ascii "-ERR protocol error")
      split
      · exact hqueued
      · exact hqueued
  | false =>
      rw [receiveBytes_accepted hrejected]
      generalize hstate : conn.withInput bytes
        (.addFramesReceived (frameParser.drain (conn.readBuffer ++ bytes)).items.length) = state
      have hexecuted : conn.trace.executed = state.trace.executed := by
        rw [← hstate]
        rfl
      exact (tells_processPayloads o fd _ hinput store state).congr hexecuted rfl rfl rfl

theorem tells_handleClientRead (store : Store Q) (conn : Connection) :
    Tells fd input.ambient start stop (conn, store) (conn.handleClientRead o input store) := by
  by_cases hreading : conn.Reading
  swap
  · rw [handleClientRead_refused hreading]
    exact .refl hinput.le _
  have houtcome := handleClientRead_outcome hreading o input store
  generalize conn.handleClientRead o input store = result at houtcome ⊢
  cases houtcome with
  | oversized hfull =>
      apply Tells.of_executed hinput.le
      have hqueued := queueResponse_executed o conn (ascii "-ERR request buffer too large")
      rw [rejectOversizedReadBuffer_eq]
      split
      · exact hqueued
      · exact hqueued
  | ended hroom hrecv hnil => exact .of_executed hinput.le rfl store
  | bytes hroom hrecv hnil => exact tells_receiveBytes o fd hinput store conn _
  | wouldBlock hrecv => exact .refl hinput.le _
  | failed hrecv => exact .of_executed hinput.le rfl store

/-- The handling of a ready event. -/
theorem tells_handleEvent (state : ServerState) (events : IoEvent) (store : Store Q)
    (conn : Connection) :
    Tells fd input.ambient start stop (conn, store)
      ((conn.handleEvent o state events input store).1.1,
        (conn.handleEvent o state events input store).2) := by
  rw [handleEvent_cases]
  split
  · exact .of_executed hinput.le rfl store
  split
  · exact (tells_handleClientRead o fd hinput store conn).congr rfl rfl
      (delivers_afterRead o events input _).executed rfl
  · exact .of_executed hinput.le (delivers_afterRead o events input conn).executed store

end Handlers

end Connection

namespace SubReactor

/-! ### The clients of a reactor -/

/-- The connections a descriptor has had, the current one last. -/
def connectionsOf (r : SubReactor Q) (fd : Int) : List Connection :=
  r.departed.filter (·.fd = fd) ++ (r.clients.lookup fd).toList

/-- The payloads a descriptor has sent, with their responses, over all its connections. -/
def answered (r : SubReactor Q) (fd : Int) : List (Bytes × Bytes) :=
  (r.connectionsOf fd).flatMap (·.trace.executed)

/-- Every client is kept under its descriptor, and the history holds all requests, explains
the store and has ended by now. -/
structure Told (now : TimePoint) (history : History) (r : SubReactor Q) : Prop where
  keyed : r.Keyed
  requests : ∀ fd, History.requests history fd = r.answered fd
  explains : History.Explains history r.store.state
  ended : ∀ e ∈ history, e.1 ≤ now

/-- The closed connections leave the table behind the departed ones of their descriptor. -/
theorem connectionsOf_cleanup {r : SubReactor Q} (h : r.Keyed) (removeOk : Int → Bool)
    (fd : Int) : (r.cleanupClosedConnections removeOk).connectionsOf fd = r.connectionsOf fd := by
  have hleft := KeyedMap.filter_values h (·.closed) fd
  have hkept := KeyedMap.lookup_filterValues_eq (!·.closed) r.clients fd
  simp only [connectionsOf, cleanupClosedConnections, List.filter_append]
  rw [hleft, hkept, List.append_assoc]
  cases r.clients.lookup fd with
  | none => rfl
  | some conn =>
      cases hclosed : conn.closed with
      | true => simp [hclosed]
      | false => simp [hclosed]

/-- With the event loop all its connections end. -/
theorem connectionsOf_fail {r : SubReactor Q} (h : r.Keyed) (fd : Int) :
    r.fail.connectionsOf fd = r.connectionsOf fd := by
  have hleft := KeyedMap.filter_values h (fun _ => true) fd
  simp only [List.filter_true] at hleft
  change List.filter _ (r.departed ++ r.clients.entries.map Sigma.snd) ++ [] = _
  rw [List.append_nil, List.filter_append, hleft, connectionsOf]

/-- Operations that execute nothing keep the history. -/
theorem Told.congr {now : TimePoint} {history : History} {r after : SubReactor Q}
    (h : Told now history r) (hkeyed : after.Keyed)
    (hconnections : ∀ fd, after.answered fd = r.answered fd) (hstore : after.store = r.store) :
    Told now history after :=
  ⟨hkeyed, fun fd => (h.requests fd).trans (hconnections fd).symm, hstore ▸ h.explains, h.ended⟩

theorem Told.fail {now : TimePoint} {history : History} {r : SubReactor Q}
    (h : Told now history r) : Told now history r.fail := by
  apply h.congr (keyed_fail r) _ rfl
  intro fd
  rw [answered, connectionsOf_fail h.keyed]
  rfl

theorem Told.later {now later : TimePoint} {history : History} {r : SubReactor Q}
    (h : Told now history r) (hle : now ≤ later) : Told later history r :=
  ⟨h.keyed, h.requests, h.explains, fun e he => Int.le_trans (h.ended e he) hle⟩

/-- The connection of a descriptor is replaced by what a handler has made of it. -/
theorem answered_registerInterest {r : SubReactor Q} {fd : Int} {conn : Connection}
    (hlook : r.clients.lookup fd = some conn) (store : Store Q)
    (refreshed : Connection × Option IoEvent) (modityOk : Bool)
    {more : List (Bytes × Bytes)}
    (hexecuted : refreshed.1.trace.executed = conn.trace.executed ++ more) (fd' : Int) :
    ({ r with store }.registerInterest fd refreshed modityOk).2.answered fd' =
      r.answered fd' ++ if fd' = fd then more else [] := by
  obtain ⟨poller, modified, heq⟩ := { r with store }.registerInterest_eq fd refreshed modityOk
  obtain ⟨events, hregister⟩ := Connection.register_conn refreshed modified
  rw [heq, hregister]
  simp only [answered, connectionsOf, KeyedMap.lookup_insert_eq]
  by_cases hfd' : fd' = fd
  · subst hfd'
    simp [hlook, hexecuted]
  · simp [hfd']

theorem registerInterest_store (r : SubReactor Q) (fd : Int)
    (refreshed : Connection × Option IoEvent) (modityOk : Bool) :
    (r.registerInterest fd refreshed modityOk).2.store = r.store := by
  obtain ⟨poller, modified, heq⟩ := r.registerInterest_eq fd refreshed modityOk
  rw [heq]

/-- The operations of the event loop that execute nothing keep the history. -/
theorem told_quiet (o : NetworkOptions) (now : TimePoint) (history : History) :
    Invariant (Q := Q) o (fun _ => False) (Told now history) where
  event r fd conn events input modityOk hr hlook hinput := hinput.elim
  drain r fd conn modityOk hr hlook := by
    have hdelivers := Connection.delivers_beginDrain o conn
    have hafter : Told now history (r.registerInterest fd (conn.beginDrain o) modityOk).2 := by
      refine hr.congr (keyed_registerInterest hr.keyed hlook
        (Connection.refreshed_beginDrain o conn).registration modityOk) (fun fd' => ?_)
        (r.registerInterest_store fd _ modityOk)
      have hsame := answered_registerInterest hlook r.store (conn.beginDrain o) modityOk
        (hdelivers.executed.trans (List.append_nil _).symm) fd'
      simpa using hsame
    unfold Settled
    split
    · exact hafter
    · exact hafter.fail
  cleanup r removeOk hr := by
    refine hr.congr ((keyed_operations o).cleanup r removeOk hr.keyed) (fun fd => ?_) rfl
    rw [answered, connectionsOf_cleanup hr.keyed]
    rfl
  close r reason hr := by
    refine hr.congr ((keyed_operations o).close r reason hr.keyed) (fun fd => ?_) rfl
    simp only [answered, connectionsOf, KeyedMap.lookup_mapValues_eq]
    cases r.clients.lookup fd with
    | none => rfl
    | some conn => simp [Connection.markClosed]
  add r fd addOk hr := by
    have houtcome := r.addClientInLoop_outcome fd addOk
    generalize r.addClientInLoop fd addOk = after at houtcome ⊢
    cases houtcome with
    | refused => exact hr
    | registered hnew hadd =>
        refine hr.congr (hr.keyed.insert fd
          { fd, registeredEvents := Connection.desiredEvents { fd } } rfl) (fun fd' => ?_) rfl
        simp only [answered, connectionsOf, KeyedMap.lookup_insert_eq]
        by_cases hfd' : fd' = fd
        · subst hfd'
          simp [hnew]
        · simp [hfd']
  throws r hr := hr.fail
  control r _ _ _ _ _ _ _ _ hr := ⟨hr.keyed, hr.requests, hr.explains, hr.ended⟩
  start r addOk threadOk _ hr := by
    have houtcome := r.start_outcome addOk threadOk
    generalize r.start addOk threadOk = after at houtcome ⊢
    cases houtcome with
    | refused hcreated => exact hr
    | unregistered hcreated poller => exact ⟨hr.keyed, hr.requests, hr.explains, hr.ended⟩
    | running hcreated poller => exact ⟨hr.keyed, hr.requests, hr.explains, hr.ended⟩
    | threadless hcreated poller => exact ⟨hr.keyed, hr.requests, hr.explains, hr.ended⟩

/-! ### The history of a run -/

/-- A ready event adds the events of its payloads to the history. -/
theorem Told.event (o : NetworkOptions) {before after : TimePoint} {history : History}
    {r : SubReactor Q} (hr : Told before history r) {fd : Int} {conn : Connection}
    (hlook : r.clients.lookup fd = some conn) (events : IoEvent) {input : IoInput Q}
    (hinput : input.During before after) (modityOk : Bool) :
    ∃ more, PayloadEvents fd input.ambient more ∧ Told after (history ++ more)
      ({ r with store := (conn.handleEvent o r.state events input r.store).2 }.registerInterest
        fd (conn.handleEvent o r.state events input r.store).1 modityOk).2 := by
  have hkeeps := (Connection.refreshed_handleEvent o r.state events input r.store conn).registration
  obtain ⟨more, hevents, hwithin, hexecuted, hexplains⟩ :=
    Connection.tells_handleEvent o fd hinput r.state events r.store conn
  generalize conn.handleEvent o r.state events input r.store = result at *
  obtain ⟨handled, store⟩ := result
  dsimp only at hexecuted hexplains ⊢
  refine ⟨more, hevents, ?_, fun fd' => ?_, ?_, fun e he => ?_⟩
  · have hkeyed : { r with store }.Keyed := hr.keyed
    exact keyed_registerInterest hkeyed hlook hkeeps modityOk
  · rw [answered_registerInterest hlook store handled modityOk hexecuted fd',
      History.requests_append, hr.requests fd']
    split
    · next heq => rw [heq]
    · next hne => rw [hevents.requests_of_ne hne]
  · rw [registerInterest_store]
    exact hexplains history hr.explains hr.ended
  · obtain he | he := List.mem_append.mp he
    · exact Int.le_trans (hr.ended e he) hwithin.le
    · exact hwithin.upper e.1 (List.mem_map_of_mem he)

/-- The loop over the ready events; by induction on them. -/
theorem Told.handleReady (o : NetworkOptions) {before after : TimePoint} {io : Nat → IoInput Q}
    (hio : Passing IoInput.During before io after) (modityOk : Nat → Bool)
    (ready : List ReadyEvent) {history : History} {r : SubReactor Q} (hr : Told before history r) :
    ∃ more, ReadyEvents ready io more ∧
      Told after (history ++ more) (handleReady o io modityOk ready r).2 := by
  induction ready generalizing before io modityOk history r with
  | nil =>
      refine ⟨[], .none [] io, ?_⟩
      rw [List.append_nil]
      exact hr.later hio.le
  | cons event rest ih =>
      obtain ⟨mid, hinput, hrest⟩ := hio.next
      -- an event of no client executes nothing
      have hskipped : ∃ more, ReadyEvents (event :: rest) io more ∧
          Told after (history ++ more) (SubReactor.handleReady o (fun i => io (i + 1))
            (fun i => modityOk (i + 1)) rest r).2 := by
        obtain ⟨more, hevents, hafter⟩ := ih hrest (fun i => modityOk (i + 1))
          (hr.later hinput.le)
        exact ⟨[] ++ more, .next (.none (io 0).ambient) hevents, hafter⟩
      unfold SubReactor.handleReady
      split
      · exact hskipped
      cases hlook : r.clients.lookup event.fd with
      | none => exact hskipped
      | some conn =>
          obtain ⟨first, hfirst, hmid⟩ := hr.event o hlook event.events hinput (modityOk 0)
          simp only
          generalize SubReactor.registerInterest _ event.fd _ (modityOk 0) = result at hmid ⊢
          obtain ⟨ok, next⟩ := result
          cases ok with
          | false =>
              exact ⟨first ++ [], .next hfirst (.none rest _), by
                simpa using hmid.later hrest.le⟩
          | true =>
              obtain ⟨more, hmore, hafter⟩ := ih hrest (fun i => modityOk (i + 1)) hmid
              exact ⟨first ++ more, .next hfirst hmore, by
                rw [← List.append_assoc]
                exact hafter⟩

/-- One iteration of the event loop. -/
theorem Told.iterate (o : NetworkOptions) {before after : TimePoint} {input : LoopInput Q}
    (hio : Passing IoInput.During before input.io after) {history : History} {r : SubReactor Q}
    (hr : Told before history r) :
    ∃ more, ReadyEvents (input.ready.getD []) input.io more ∧
      Told after (history ++ more) (r.iterate o input) := by
  have hquiet := told_quiet (Q := Q) o
  have hnothing {next : SubReactor Q} (hnext : Told before history next) :
      ∃ more, ReadyEvents (input.ready.getD []) input.io more ∧
        Told after (history ++ more) next :=
    ⟨[], .none _ _, by simpa using hnext.later hio.le⟩
  unfold SubReactor.iterate
  split
  · exact hnothing hr
  have houtcome := iteration_outcome o input r
  generalize r.iteration o input = result at houtcome ⊢
  cases houtcome with
  | waitFailed hready => exact hnothing hr.fail
  | drainFailed hready hcontrol hdrain => exact hnothing hr.fail
  | controlFailed hready hcontrol hdrain hprocess =>
      have hsettled := (hquiet before history).processControlRequests input hr
      rw [hprocess] at hsettled
      exact hnothing hsettled
  | stopped hready hmid hstate => exact hnothing ((hquiet before history).afterControl hr hmid)
  | @eventFailed ready mid handled hready hmid hstate hhandled =>
      obtain ⟨more, hevents, hafter⟩ := ((hquiet before history).afterControl hr hmid).handleReady
        o hio input.modityOk ready
      rw [hhandled] at hafter
      rw [hready]
      exact ⟨more, hevents, hafter.fail⟩
  | @handled ready mid handled hready hmid hstate hhandled =>
      obtain ⟨more, hevents, hafter⟩ := ((hquiet before history).afterControl hr hmid).handleReady
        o hio input.modityOk ready
      rw [hhandled] at hafter
      rw [hready]
      exact ⟨more, hevents, (hquiet after _).checkShutdownProgress input
        ((hquiet after _).cleanup _ input.removeOk hafter)⟩

/-- The history of a run: the iterations of the event loop add the events of their ready
descriptors and nothing is left out of what the clients have been answered; the calls of
other threads add nothing. -/
inductive Records (o : NetworkOptions) : SubReactor Q → List (Action Q) → History → Prop where
  | ended (r : SubReactor Q) : Records o r [] []
  | iterate {r : SubReactor Q} {input : LoopInput Q} {rest : List (Action Q)}
      {more history : History} (hready : ReadyEvents (input.ready.getD []) input.io more)
      (hanswered : ∀ fd,
        (r.iterate o input).answered fd = r.answered fd ++ History.requests more fd)
      (tail : Records o (r.iterate o input) rest history) :
      Records o r (.iterate input :: rest) (more ++ history)
  | call {r : SubReactor Q} {action : Action Q} {rest : List (Action Q)} {history : History}
      (hcall : ∀ input, action ≠ .iterate input) (tail : Records o (r.step o action) rest history) :
      Records o r (action :: rest) history

/-- The calls of other threads. -/
theorem Told.call (o : NetworkOptions) {now : TimePoint} {history : History} {r : SubReactor Q}
    (htidy : r.Tidy) (hidle : r.Idle) (hr : Told now history r) {action : Action Q}
    (hcall : ∀ input, action ≠ .iterate input) : Told now history (r.step o action) := by
  apply (told_quiet o now history).step htidy hidle hr
  cases action with
  | iterate input => exact absurd rfl (hcall input)
  | start | enqueClient | stop | forceStop => trivial

theorem Forward.call {before : TimePoint} {action : Action Q} {rest : List (Action Q)}
    (h : Forward before (action :: rest)) (hcall : ∀ input, action ≠ .iterate input) :
    Forward before rest := by
  cases action with
  | iterate input => exact absurd rfl (hcall input)
  | start | enqueClient | stop | forceStop => exact h

/-- A run goes on with the history of what came before it; by induction on the run. -/
theorem Told.run (o : NetworkOptions) {before : TimePoint} (actions : List (Action Q))
    (hforward : Forward before actions) {history : History} {r : SubReactor Q} (htidy : r.Tidy)
    (hidle : r.Idle) (hr : Told before history r) :
    ∃ more after, Records o r actions more ∧ Told after (history ++ more) (r.run o actions) := by
  induction actions generalizing before history r with
  | nil =>
      refine ⟨[], before, .ended r, ?_⟩
      rw [List.append_nil]
      exact hr
  | cons action rest ih =>
      have htidy' := htidy.step o action
      have hidle' := hidle.step htidy o action
      obtain ⟨input, rfl⟩ | hcall :
          (∃ input, action = .iterate input) ∨ ∀ input, action ≠ .iterate input := by
        simpa only [← not_exists] using em _
      · obtain ⟨mid, hio, hrest⟩ := hforward
        obtain ⟨first, hready, hmid⟩ := hr.iterate o hio
        obtain ⟨more, after, hmore, hafter⟩ := ih hrest htidy' hidle' hmid
        refine ⟨first ++ more, after, .iterate hready (fun fd => ?_) hmore, ?_⟩
        · rw [← hmid.requests fd, ← hr.requests fd, History.requests_append]
        · rw [← List.append_assoc]
          exact hafter
      · obtain ⟨more, after, hmore, hafter⟩ := ih (hforward.call hcall) htidy' hidle'
          (hr.call o htidy hidle hcall)
        exact ⟨more, after, .call hcall hmore, hafter⟩

/-- In every run of a sub reactor on an empty store that other threads use by its operations,
and in which the clock does not go back, the history of the run holds the requests of all
clients, each in its order, is ordered by its readings of the clock, and every response in it
but that of STATS is the answer of the map with deadlines after all that was before. -/
theorem clients_see_one_map (o : NetworkOptions) (backend : PollerBackend) (controlFd : Int)
    (start : TimePoint) (actions : List (Action Q)) (h : Forward start actions) :
    let fresh := created backend controlFd (Store.empty : Store Q)
    ∃ history : History, Records o fresh actions history ∧
      (∀ fd, History.requests history fd = (fresh.run o actions).answered fd) ∧
      History.Ordered history ∧ History.Consistent history ∧
      ∀ now, (∀ e ∈ history, e.1 ≤ now) →
        Represents now (fresh.run o actions).store.state.data (History.reference history) := by
  intro fresh
  have hfresh : Told start [] fresh := by
    refine ⟨fun fd conn hlook => ?_, fun fd => rfl, History.explains_empty, fun e he => ?_⟩
    · cases hlook
    · cases he
  obtain ⟨history, after, hrecords, htold⟩ := hfresh.run o actions h
    (tidy_created backend controlFd _) (fun _ => rfl)
  rw [List.nil_append] at htold
  exact ⟨history, hrecords, htold.requests, htold.explains.ordered, htold.explains.consistent,
    htold.explains.represents⟩

/-- An environment in which nobody else uses the store. -/
def alone (now : TimePoint) : Ambient sortedExpirations := ⟨id, now, [], 0⟩

/-- Another thread stores a value before the payload. -/
def overtaken : Ambient sortedExpirations :=
  ⟨fun store => (store.execute 2 (CommandParser.parseCommand (ascii "SET k w"))).2, 3, [], 0⟩

/-- The iteration that reads a key another thread has stored anew in the meantime. -/
def readOvertaken : LoopInput sortedExpirations :=
  { calmly [⟨8, { read := true }⟩] .wouldBlock .wouldBlock 3 with
    io := fun i => ⟨.returned (.bytes (frameOf (ascii "GET k"))), .returned .wouldBlock,
      fun j => if i = 0 ∧ j = 0 then overtaken else alone 3⟩ }

/-- One client stores a value, another thread stores one under the same key, and another
client reads it. -/
def twoClients : List (Action sortedExpirations) :=
  [.start true true, .enqueClient 7, .enqueClient 8,
    .iterate (calmly [⟨3, { read := true }⟩] .wouldBlock .wouldBlock 0),
    .iterate (calmly [⟨7, { read := true }⟩] (.bytes (frameOf (ascii "SET k v"))) .wouldBlock 0),
    .iterate readOvertaken]

theorem during_alone (now : TimePoint) : (alone now).During now now :=
  ⟨[], fun _ => ⟨[], rfl⟩, .nil (Int.le_refl now), Int.le_refl now⟩

theorem during_overtaken : overtaken.During 0 3 := by
  refine ⟨[(2, .set (ascii "k") (ascii "w"))], fun store => ?_, ?_, Int.le_refl 3⟩
  · obtain ⟨reply, after, hrun, -⟩ :=
      perform_wellFormed store.wellFormed 2 (.set (ascii "k") (ascii "w"))
    have hop : (CommandParser.parseCommand (ascii "SET k w")).op? =
        some (.set (ascii "k") (ascii "w")) := by decide
    have hexecute := store.execute_eq 2 (CommandParser.parseCommand (ascii "SET k w"))
    rw [CommandExecutor.execute_op hop hrun] at hexecute
    obtain ⟨-, rfl⟩ := Prod.mk.inj (Except.ok.inj hexecute)
    exact ⟨[reply], by simp [performAll, hrun, overtaken]⟩
  · exact .singleton (by decide) (by decide)

theorem forward_twoClients : Forward 0 twoClients := by
  have hcalm (ready : List ReadyEvent) (recv : RecvResult) :
      Passing IoInput.During 0 (calmly ready recv .wouldBlock 0).io 0 :=
    .still fun _ => .still fun _ => during_alone 0
  have hfirst : IoInput.During 0 (readOvertaken.io 0) 3 :=
    .cons during_overtaken (by decide) (.still fun _ => during_alone 3)
  have hrest : Passing IoInput.During 3 (fun i => readOvertaken.io (i + 1)) 3 := by
    refine .still fun i => .still fun j => ?_
    have halone : (readOvertaken.io (i + 1)).ambient j = alone 3 := by
      simp [readOvertaken]
    rw [halone]
    exact during_alone 3
  exact ⟨0, hcalm _ _, 0, hcalm _ _, 3, .cons hfirst (by decide) hrest, trivial⟩

theorem clients_see_one_map_two :
    let fresh := created .epoll 3 Store.empty
    (fresh.run {} twoClients).answered 8 = [(ascii "GET k", ascii "$w")] ∧
      ∃ history : History, Records {} fresh twoClients history ∧
        (∀ fd, History.requests history fd = (fresh.run {} twoClients).answered fd) ∧
        History.Ordered history ∧ History.Consistent history ∧
        ∀ now, (∀ e ∈ history, e.1 ≤ now) →
          Represents now (fresh.run {} twoClients).store.state.data
            (History.reference history) := by
  have htold := clients_see_one_map {} .epoll 3 0 twoClients forward_twoClients
  exact ⟨by decide +kernel, htold⟩

end SubReactor

end TinyKv
