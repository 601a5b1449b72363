import TinyKv.Net.TcpServer

/-!
# The count of active connections

A reactor reports a connection that enters `m_clients`, and one that its cleanup removes.
The `catch` clauses of its event loop clear `m_clients` without a report: these are the
only connections that stay counted as active.
-/

namespace TinyKv

open Foundation

variable {Q : ExpirationQueue}

namespace SubReactor

/-- The metric calls of a reactor match the connections it has and has had; `lost` of
them have left without a call of `OnConnectionClosed`. At no moment has it closed more
connections than it has accepted. -/
structure Counted (lost : Nat) (r : SubReactor Q) : Prop where
  accepted : MetricCall.accepted r.calls = KeyedMap.size r.clients + r.departed.length
  closed : r.departed.length = MetricCall.closed r.calls + lost
  ordered : ∀ calls, calls <+: r.calls → MetricCall.closed calls ≤ MetricCall.accepted calls

theorem counted_created (backend : PollerBackend) (controlFd : Int) (store : Store Q) :
    Counted 0 (created backend controlFd store) where
  accepted := rfl
  closed := rfl
  ordered calls hprefix := by
    rw [List.prefix_nil.mp hprefix]
    exact Nat.le_refl 0

/-- Calls may close as many connections as are left to be closed. -/
theorem ordered_append {calls more : List MetricCall}
    (h : ∀ p, p <+: calls → MetricCall.closed p ≤ MetricCall.accepted p)
    (hmore : MetricCall.closed calls + MetricCall.closed more ≤ MetricCall.accepted calls) :
    ∀ p, p <+: calls ++ more → MetricCall.closed p ≤ MetricCall.accepted p := by
  rintro p ⟨rest, heq⟩
  obtain ⟨tail, hcalls, -⟩ | ⟨tail, rfl, rfl⟩ := List.append_eq_append_iff.mp heq
  · exact h p ⟨tail, hcalls.symm⟩
  · rw [MetricCall.closed_append] at hmore ⊢
    rw [MetricCall.accepted_append]
    omega

theorem Counted.calls_le {lost : Nat} {r : SubReactor Q} (h : r.Counted lost) :
    MetricCall.closed r.calls + KeyedMap.size r.clients ≤ MetricCall.accepted r.calls := by
  have haccepted := h.accepted
  have hclosed := h.closed
  omega

/-- A client is replaced by its next state. -/
theorem Counted.registerInterest {lost : Nat} {r : SubReactor Q} (h : r.Counted lost) {fd : Int}
    {conn : Connection} (hlook : r.clients.lookup fd = some conn)
    (refreshed : Connection × Option IoEvent) (modityOk : Bool) :
    (r.registerInterest fd refreshed modityOk).2.Counted lost := by
  obtain ⟨poller, modified, heq⟩ := r.registerInterest_eq fd refreshed modityOk
  rw [heq]
  constructor
  · rw [h.accepted, KeyedMap.size_insert_over _ hlook]
  · exact h.closed
  · exact h.ordered

/-- The cleanup reports every connection that it removes. -/
theorem Counted.cleanup {lost : Nat} {r : SubReactor Q} (h : r.Counted lost)
    (removeOk : Int → Bool) : (r.cleanupClosedConnections removeOk).Counted lost := by
  have hsize := KeyedMap.size_filterValues (·.closed) r.clients
  have haccepted := h.accepted
  have hclosed := h.closed
  have hcalls := h.calls_le
  have hordered := h.ordered
  unfold cleanupClosedConnections
  generalize hentries : (r.clients.entries.filter fun e => e.2.closed) = closed at hsize ⊢
  have hmore : MetricCall.closed (closed.map fun _ => MetricCall.onConnectionClosed) =
      closed.length := by
    simp [MetricCall.closed, List.map_const']
  have hnone : MetricCall.accepted (closed.map fun _ => MetricCall.onConnectionClosed) = 0 := by
    simp [MetricCall.accepted, List.map_const', List.count_replicate]
  constructor
  · simp only [MetricCall.accepted_append, hnone, List.length_append, List.length_map]
    omega
  · simp only [MetricCall.closed_append, hmore, List.length_append, List.length_map]
    omega
  · apply ordered_append hordered
    omega

/-- A client is counted when it has been registered, and only then. -/
theorem Counted.addClientInLoop {lost : Nat} {r : SubReactor Q} (h : r.Counted lost) (fd : Int)
    (addOk : Bool) : (r.addClientInLoop fd addOk).Counted lost := by
  have houtcome := r.addClientInLoop_outcome fd addOk
  generalize r.addClientInLoop fd addOk = after at houtcome ⊢
  cases houtcome with
  | refused => exact h
  | registered hnew hadd =>
      constructor
      · rw [MetricCall.accepted_append, KeyedMap.size_insert_new _ hnew, h.accepted]
        exact Nat.add_right_comm ..
      · rw [MetricCall.closed_append]
        exact h.closed
      · apply ordered_append h.ordered
        exact h.ordered r.calls List.prefix_rfl

/-- Every operation of the event loop keeps the count, also when it throws. -/
theorem counted_operations (o : NetworkOptions) (lost : Nat) :
    Operations o (fun _ => True) (Counted (Q := Q) lost) (Counted lost) where
  event r fd conn events input modityOk hr hlook _ := by
    have hstore : ({ r with
        store := (conn.handleEvent o r.state events input r.store).2 } : SubReactor Q).Counted
          lost := ⟨hr.accepted, hr.closed, hr.ordered⟩
    have hafter := hstore.registerInterest hlook
      (conn.handleEvent o r.state events input r.store).1 modityOk
    unfold Settled
    split
    · exact hafter
    · exact hafter
  drain r fd conn modityOk hr hlook := by
    have hafter := hr.registerInterest hlook (conn.beginDrain o) modityOk
    unfold Settled
    split
    · exact hafter
    · exact hafter
  cleanup r removeOk hr := hr.cleanup removeOk
  close r reason hr := by
    constructor
    · rw [MetricCall.accepted_append, KeyedMap.size_mapValues]
      exact hr.accepted
    · rw [MetricCall.closed_append]
      exact hr.closed
    · apply ordered_append hr.ordered
      exact hr.ordered r.calls List.prefix_rfl
  add r fd addOk hr := hr.addClientInLoop fd addOk
  throws r hr := hr
  control r _ _ _ _ _ _ _ _ hr := ⟨hr.accepted, hr.closed, hr.ordered⟩

/-- The connections that have left without a call of `OnConnectionClosed`. -/
def lost (r : SubReactor Q) : Nat := r.departed.length - MetricCall.closed r.calls

theorem Counted.lost_eq {lost : Nat} {r : SubReactor Q} (h : r.Counted lost) : r.lost = lost := by
  rw [SubReactor.lost, h.closed, Nat.add_sub_cancel_left]

/-- The iteration does not end in a `catch` clause while there are clients. -/
def Lossless (o : NetworkOptions) (input : LoopInput Q) (r : SubReactor Q) : Prop :=
  ∀ after, ¬ (r.state = .created ∨ r.state = .stopped) →
    r.iteration o input = (false, after) → after.clients = ∅

/-- A `catch` clause loses the clients there are. -/
theorem Counted.fail {lost : Nat} {r : SubReactor Q} (h : r.Counted lost) :
    r.fail.Counted (lost + KeyedMap.size r.clients) := by
  have haccepted := h.accepted
  have hclosed := h.closed
  have hentries : (r.clients.entries.map Sigma.snd).length = KeyedMap.size r.clients :=
    List.length_map _
  constructor
  · change MetricCall.accepted r.calls = 0 + (r.departed ++ _).length
    rw [List.length_append, hentries]
    omega
  · change (r.departed ++ _).length = MetricCall.closed r.calls + _
    rw [List.length_append, hentries]
    omega
  · exact h.ordered

/-- An iteration loses clients exactly when it ends in a `catch` clause with some. -/
theorem Counted.iterate {lost : Nat} {r : SubReactor Q} (h : r.Counted lost)
    (o : NetworkOptions) (input : LoopInput Q) :
    ∃ more, (r.iterate o input).Counted (lost + more) ∧ (r.Lossless o input ↔ more = 0) := by
  unfold SubReactor.iterate Lossless
  split
  · next hdead => exact ⟨0, h, by simp [hdead]⟩
  next hlive =>
    have hsettled : Settled (Counted lost) (Counted lost) (r.iteration o input) :=
      (counted_operations o lost).iteration (fun _ => trivial) h
    generalize r.iteration o input = result at hsettled ⊢
    obtain ⟨ok, after⟩ := result
    cases ok with
    | true => exact ⟨0, hsettled, by simp⟩
    | false =>
        refine ⟨KeyedMap.size after.clients, Counted.fail hsettled, ?_⟩
        constructor
        · intro hlossless
          rw [hlossless after hlive rfl]
          rfl
        · intro hnone other _ heq
          cases heq
          apply AList.ext
          exact List.length_eq_zero_iff.mp hnone

/-- The other steps of a reactor concern no connection. -/
theorem Counted.call {lost : Nat} {r : SubReactor Q} (h : r.Counted lost) (o : NetworkOptions)
    {action : Action Q} (hcall : ∀ input, action ≠ .iterate input) :
    (r.step o action).Counted lost := by
  cases action with
  | start addOk threadOk =>
      have houtcome := r.start_outcome addOk threadOk
      change (r.start addOk threadOk).Counted lost
      generalize r.start addOk threadOk = after at houtcome ⊢
      cases houtcome with
      | refused hcreated => exact h
      | unregistered hcreated poller => exact ⟨h.accepted, h.closed, h.ordered⟩
      | running hcreated poller => exact ⟨h.accepted, h.closed, h.ordered⟩
      | threadless hcreated poller => exact ⟨h.accepted, h.closed, h.ordered⟩
  | enqueClient fd =>
      obtain ⟨fds, heq⟩ := r.enqueClient_eq fd
      rw [SubReactor.step, heq]
      exact ⟨h.accepted, h.closed, h.ordered⟩
  | stop deadline => exact ⟨h.accepted, h.closed, h.ordered⟩
  | forceStop => exact ⟨h.accepted, h.closed, h.ordered⟩
  | iterate input => exact absurd rfl (hcall input)

end SubReactor

namespace TcpServer

/-- All metric calls of the sub reactors. -/
def metricCalls (s : TcpServer Q) : List MetricCall := s.subReactors.flatMap (·.calls)

/-- `m_metrics`, to which the threads of the sub reactors report in some order. -/
def metrics (s : TcpServer Q) : ServerMetrics := s.metricCalls.foldl ServerMetrics.record {}

/-- The number of entries in the `m_clients` of all sub reactors. -/
def clientCount (s : TcpServer Q) : Nat :=
  (s.subReactors.map fun r => KeyedMap.size r.clients).sum

/-- The connections all sub reactors have lost. -/
def lost (s : TcpServer Q) : Nat := (s.subReactors.map SubReactor.lost).sum

/-- Every sub reactor keeps the count. -/
def Counted (s : TcpServer Q) : Prop := ∀ r ∈ s.subReactors, r.Counted r.lost

/-- The step lets no event loop end in a `catch` clause while it has clients. -/
def Lossless (c : ServerSetup) (s : TcpServer Q) (action : Action Q) : Prop :=
  ∀ i input r, action = .subReactor i input → s.subReactors[i]? = some r →
    r.Lossless c.networkOptions input

theorem sum_map_set {α : Type*} (f : α → Nat) {l : List α} {i : Nat} {a : α}
    (h : l[i]? = some a) (b : α) :
    ((l.set i b).map f).sum + f a = (l.map f).sum + f b := by
  induction l generalizing i with
  | nil => cases h
  | cons head rest ih =>
      cases i with
      | zero =>
          cases h
          simp only [List.set_cons_zero, List.map_cons, List.sum_cons]
          omega
      | succ i =>
          have hrest := ih (i := i) h
          simp only [List.set_cons_succ, List.map_cons, List.sum_cons]
          omega

/-- A sub reactor that keeps the count is replaced by one that has lost `more`. -/
theorem Counted.set {s : TcpServer Q} (h : s.Counted) {i : Nat} {r after : SubReactor Q}
    {more : Nat} (hget : s.subReactors[i]? = some r) (hafter : after.Counted (r.lost + more)) :
    (s.withSubReactor i after).Counted ∧ (s.withSubReactor i after).lost = s.lost + more := by
  constructor
  · intro r' hmem
    obtain hold | rfl := List.mem_or_eq_of_mem_set hmem
    · exact h r' hold
    · rw [hafter.lost_eq]
      exact hafter
  · have hsum := sum_map_set SubReactor.lost hget after
    rw [hafter.lost_eq] at hsum
    change ((s.subReactors.set i after).map SubReactor.lost).sum =
      (s.subReactors.map SubReactor.lost).sum + more
    omega

/-- One step of a server keeps the count, and loses clients when it is not lossless. -/
theorem Counted.step {s : TcpServer Q} (h : s.Counted) (c : ServerSetup) (action : Action Q) :
    ∃ more, (s.step c action).Counted ∧ (s.step c action).lost = s.lost + more ∧
      (s.Lossless c action ↔ more = 0) := by
  cases action with
  | run input =>
      have hlossless : s.Lossless c (.run input) := fun _ _ _ heq => by cases heq
      have hcalled := called_runStep c input s
      refine ⟨0, ?_⟩
      simp only [TcpServer.step, Counted, TcpServer.lost]
      generalize (s.runStep c input).subReactors = after at hcalled ⊢
      cases hcalled with
      | none => exact ⟨h, rfl, by simp [hlossless]⟩
      | @call i r step hget hcall =>
          have hr : (r.step c.networkOptions step).Counted (r.lost + 0) :=
            (h r (List.mem_of_getElem? hget)).call c.networkOptions hcall
          obtain ⟨hcounted, hlost⟩ := h.set hget hr
          exact ⟨hcounted, hlost, by simp [hlossless]⟩
  | stop =>
      have hlossless : s.Lossless c .stop := fun _ _ _ heq => by cases heq
      exact ⟨0, h, rfl, by simp [hlossless]⟩
  | subReactor i input =>
      simp only [TcpServer.step]
      cases hget : s.subReactors[i]? with
      | none =>
          refine ⟨0, h, rfl, fun _ => rfl, ?_⟩
          rintro - j input' r heq hget'
          cases heq
          rw [hget] at hget'
          cases hget'
      | some r =>
          obtain ⟨more, hafter, hiff⟩ :=
            (h r (List.mem_of_getElem? hget)).iterate c.networkOptions input
          obtain ⟨hcounted, hlost⟩ := h.set hget hafter
          refine ⟨more, hcounted, hlost, ?_⟩
          rw [← hiff]
          constructor
          · intro hlossless
            exact hlossless i input r rfl hget
          · intro hlossless j input' r' heq hget'
            cases heq
            rw [hget] at hget'
            cases hget'
            exact hlossless

theorem counted_created (c : ServerSetup) (store : Store Q) :
    (created c store).Counted ∧ (created c store).lost = 0 := by
  have hcreated (i : Nat) := SubReactor.counted_created c.backend (c.controlFd i) store
  constructor
  · intro r hmem
    obtain ⟨i, -, rfl⟩ := List.mem_map.mp hmem
    rw [(hcreated i).lost_eq]
    exact hcreated i
  · apply List.sum_eq_zero_iff_forall_eq_nat.mpr
    intro lost hmem
    obtain ⟨r, hr, rfl⟩ := List.mem_map.mp hmem
    obtain ⟨i, -, rfl⟩ := List.mem_map.mp hr
    exact (hcreated i).lost_eq

theorem counted_run (c : ServerSetup) (store : Store Q) (actions : List (Action Q)) :
    ((created c store).run c actions).Counted := by
  apply (machine c).run_invariant (I := Counted)
  · intro s h action _
    obtain ⟨_, hcounted, -⟩ := h.step c action
    exact hcounted
  · exact (counted_created c store).1

/-- A run is lossless in every step exactly when nothing has been lost in the end. -/
theorem meets_lossless_iff (c : ServerSetup) (store : Store Q) (actions : List (Action Q)) :
    (machine c).Meets (Lossless c) (created c store) actions ↔
      ((created c store).run c actions).lost = 0 := by
  obtain ⟨hcounted, hzero⟩ := counted_created c store
  have hmeasure := (machine c).meets_iff_measure (I := Counted) (C := Lossless c)
    (f := TcpServer.lost)
    (fun s action h => by
      obtain ⟨_, hcounted, -⟩ := h.step c action
      exact hcounted)
    (fun s action h hlossless => by
      obtain ⟨more, -, hlost, hiff⟩ := h.step c action
      rw [hiff.mp hlossless] at hlost
      exact hlost)
    (fun s action h hlossy => by
      obtain ⟨more, -, hlost, hiff⟩ := h.step c action
      have hmore : more ≠ 0 := fun hzero => hlossy (hiff.mpr hzero)
      change s.lost < (s.step c action).lost
      omega) hcounted actions
  rw [hmeasure.2, hzero]
  rfl

/-- The calls of all sub reactors together. -/
theorem counts_eq {s : TcpServer Q} (h : s.Counted) :
    MetricCall.accepted s.metricCalls =
      MetricCall.closed s.metricCalls + s.clientCount + s.lost := by
  unfold Counted at h
  unfold metricCalls clientCount TcpServer.lost
  generalize s.subReactors = reactors at h ⊢
  induction reactors with
  | nil => rfl
  | cons r rest ih =>
      have hrest := ih fun r' hmem => h r' (List.mem_cons_of_mem _ hmem)
      have haccepted := (h r (List.mem_cons_self ..)).accepted
      have hclosed := (h r (List.mem_cons_self ..)).closed
      simp only [List.flatMap_cons, MetricCall.accepted_append, MetricCall.closed_append,
        List.map_cons, List.sum_cons]
      omega

/-- However far each thread has come with its calls, no more connections are closed than
accepted. -/
theorem closed_le_accepted {s : TcpServer Q} (h : s.Counted) {moment : List (List MetricCall)}
    (hmoment : List.Forall₂ (fun calls r => calls <+: r.calls) moment s.subReactors) :
    MetricCall.closed moment.flatten ≤ MetricCall.accepted moment.flatten := by
  unfold Counted at h
  generalize s.subReactors = reactors at h hmoment
  induction hmoment with
  | nil => exact Nat.le_refl 0
  | cons hprefix _ ih =>
      have hfirst := (h _ (List.mem_cons_self ..)).ordered _ hprefix
      have hrest := ih fun r hmem => h r (List.mem_cons_of_mem _ hmem)
      rw [List.flatten_cons, MetricCall.closed_append, MetricCall.accepted_append]
      exact Nat.add_le_add hfirst hrest

/-- The active connections are the accepted ones without the closed ones, and the counter
never underflows. They are the entries of `m_clients` in all sub reactors exactly as long
as no event loop has ended in a `catch` clause while it had clients. -/
theorem activeConnections_iff (c : ServerSetup) (store : Store Q) (actions : List (Action Q)) :
    let s := (created c store).run c actions
    s.metrics.activeConnections =
      s.metrics.acceptedConnections - s.metrics.closedConnections ∧
    (∀ moment, List.Forall₂ (fun calls r => calls <+: r.calls) moment s.subReactors →
      MetricCall.closed moment.flatten ≤ MetricCall.accepted moment.flatten) ∧
    (MetricCall.accepted s.metricCalls - MetricCall.closed s.metricCalls = s.clientCount ↔
      (machine c).Meets (Lossless c) (created c store) actions) ∧
    ((machine c).Meets (Lossless c) (created c store) actions →
      s.metrics.activeConnections = .ofNat s.clientCount) := by
  intro s
  have hcounted : s.Counted := counted_run c store actions
  have hcounts := counts_eq hcounted
  have hactive : s.metrics.activeConnections =
      s.metrics.acceptedConnections - s.metrics.closedConnections := by
    simp only [metrics, ServerMetrics.foldl_record]
    simp
  have hmeets : (machine c).Meets (Lossless c) (created c store) actions ↔ s.lost = 0 :=
    meets_lossless_iff c store actions
  refine ⟨hactive, fun moment hmoment => closed_le_accepted hcounted hmoment, ?_, ?_⟩
  · rw [hmeets]
    omega
  · intro hlossless
    have hnone := hmeets.mp hlossless
    rw [hactive]
    simp only [metrics, ServerMetrics.foldl_record, hcounts, hnone, Nat.add_zero,
      UInt64.ofNat_add]
    grind

/-- A `Wait` that throws leaves an accepted client active for ever. -/
theorem active_after_exception :
    let failed : LoopInput sortedExpirations := { SubReactor.readPing [] with ready := none }
    let s := (created oneSubReactor Store.empty).run oneSubReactor
      (acceptClient ++ [.subReactor 0 failed])
    s.metrics = { acceptedConnections := 1, closedConnections := 0, activeConnections := 1 } ∧
      s.clientCount = 0 ∧ s.subReactors.map (·.state) = [.stopped] := by
  decide +kernel

end TcpServer

end TinyKv
