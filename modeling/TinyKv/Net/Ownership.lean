import TinyKv.Net.Descriptors
import TinyKv.Net.TcpServer

/-!
# The owners of accepted descriptors

From `accept` until it is closed, a descriptor is held by the frame of `AcceptNewClients`, or by
one sub reactor in its queue or its clients. Between `accept` and `EnqueClient`, and between the
operations of their iterations, the threads may take turns in any way, and the number of a
descriptor may be given out again as soon as it has been closed.
-/

namespace TinyKv

open Foundation

variable {Q : ExpirationQueue}

/-- A server with `client`, the variable of `AcceptNewClients`, the operations its sub reactors
have come to, and what has happened to the descriptors of clients so far. -/
structure ClientDescriptors (Q : ExpirationQueue) where
  server : TcpServer Q
  stages : Nat → SubReactor.LoopStage := fun _ => .wait
  client : Option Int := none
  events : List (DescriptorEvent Int) := []

namespace TcpServer

/-- The sub reactors that exist; `CleanupMainReactor` destroys them. -/
def reactors (s : TcpServer Q) : List (SubReactor Q) :=
  match s.point with
  | .returned => []
  | _ => s.subReactors

/-- The loop of `AcceptNewClients` calls `accept` next. -/
def accepting (c : ServerSetup) (s : TcpServer Q) : Bool :=
  match s.point with
  | .acceptNewClients acceptedCount _ => acceptedCount < c.networkOptions.maxAcceptsPerEvent
  | _ => false

/-- The next step accepts a client. -/
def acceptsClient (c : ServerSetup) (input : RunInput) (s : TcpServer Q) : Bool :=
  match input.accept with
  | .client _ _ => s.accepting c
  | _ => false

/-- The body of the loop of `AcceptNewClients` destroys `client` unless a sub reactor has taken it
over. -/
def closedByHandOver (fd : Int) (initialised : Bool) (s : TcpServer Q) : List Int :=
  if !initialised then
    [fd]
  else
    match s.subReactors[s.nextSubReactorIndex]? with
    | some r => r.closedByEnqueClient fd
    | none => [fd]

/-- `CleanupMainReactor` destroys the sub reactors when their threads have been joined. -/
def closedByRunStep (s : TcpServer Q) : List Int :=
  match s.point with
  | .joinSubReactors =>
      if s.subReactors.all threadEnded then
        s.subReactors.flatMap SubReactor.closedByDestructor
      else
        []
  | _ => []

end TcpServer

namespace ClientDescriptors

/-- The descriptors that are held, each place in turn. -/
def held (s : ClientDescriptors Q) : List Int :=
  s.client.toList ++ s.server.reactors.flatMap SubReactor.held

/-- Some descriptors are closed. -/
def closing (s : ClientDescriptors Q) (fds : List Int) : ClientDescriptors Q :=
  { s with events := s.events ++ fds.map .closed }

/-- The steps: those of the thread in `Run`, of which the acceptance of a client is two, the
calls of `Stop`, and the operations of the sub reactors. -/
inductive Action (Q : ExpirationQueue) where
  | run (input : RunInput)
  | accept (fd : Int)
  | handOver (input : RunInput) (initialised : Bool)
  | stop
  | loop (i : Nat) (input : LoopInput Q)

/-- A step of the thread in `Run` other than the acceptance of a client. -/
def runStep (c : ServerSetup) (input : RunInput) (s : ClientDescriptors Q) :
    ClientDescriptors Q :=
  if s.client.isSome || s.server.acceptsClient c input then
    s
  else
    { s.closing s.server.closedByRunStep with server := s.server.runStep c input }

/-- `accept` returns a descriptor, which `client` takes. -/
def accept (c : ServerSetup) (fd : Int) (s : ClientDescriptors Q) : ClientDescriptors Q :=
  if s.client.isNone && s.server.accepting c then
    { s with client := some fd, events := s.events ++ [.opened fd] }
  else
    s

/-- The rest of the body of the loop of `AcceptNewClients`. -/
def handOver (c : ServerSetup) (input : RunInput) (initialised : Bool)
    (s : ClientDescriptors Q) : ClientDescriptors Q :=
  match s.client with
  | none => s
  | some fd =>
      if s.server.accepting c then
        { s.closing (s.server.closedByHandOver fd initialised) with
          server := s.server.runStep c { input with accept := .client fd initialised }
          client := none }
      else
        s

/-- The next operation of a sub reactor. -/
def loop (c : ServerSetup) (i : Nat) (input : LoopInput Q) (s : ClientDescriptors Q) :
    ClientDescriptors Q :=
  match s.server.subReactors[i]? with
  | none => s
  | some r =>
      let result := r.loopStep c.networkOptions input (s.stages i)
      { s.closing result.closed with
        server := s.server.withSubReactor i result.reactor
        stages := Function.update s.stages i result.stage }

/-- One step. -/
def step (c : ServerSetup) (s : ClientDescriptors Q) : Action Q → ClientDescriptors Q
  | .run input => s.runStep c input
  | .accept fd => s.accept c fd
  | .handOver input initialised => s.handOver c input initialised
  | .stop => { s with server := s.server.step c .stop }
  | .loop i input => s.loop c i input

/-- The servers of a given setup, with the descriptors of their clients. -/
def machine (c : ServerSetup) : Machine (ClientDescriptors Q) (Action Q) := ⟨step c⟩

/-- The server after a run of steps. -/
def run (c : ServerSetup) (s : ClientDescriptors Q) (actions : List (Action Q)) :
    ClientDescriptors Q :=
  (machine c).run s actions

/-- A server as its constructor leaves it. -/
def created (c : ServerSetup) (store : Store Q) : ClientDescriptors Q where
  server := TcpServer.created c store

/-- A number that `accept` returns is not negative, and not that of an open descriptor. -/
def Fresh (s : ClientDescriptors Q) : Action Q → Prop
  | .accept fd => 0 ≤ fd ∧ ∀ fds ∈ DescriptorEvent.table [] s.events, fd ∉ fds
  | _ => True

instance (s : ClientDescriptors Q) : ∀ action, Decidable (s.Fresh action)
  | .accept fd =>
      inferInstanceAs (Decidable (0 ≤ fd ∧ ∀ fds ∈ DescriptorEvent.table [] s.events, fd ∉ fds))
  | .run _ => .isTrue trivial
  | .handOver _ _ => .isTrue trivial
  | .stop => .isTrue trivial
  | .loop _ _ => .isTrue trivial

end ClientDescriptors

/-! ### What the thread in `Run` leaves to the sub reactors -/

namespace TcpServer

/-- The sub reactors exist after the step, and own what they did. -/
def Leaves (s s' : TcpServer Q) : Prop :=
  s'.reactors.map SubReactor.owned = s.subReactors.map SubReactor.owned

theorem leaves_of_eq {s s' : TcpServer Q} (h : s'.reactors = s.subReactors) : Leaves s s' := by
  unfold Leaves
  rw [h]

/-- A call that only concerns the control members of a sub reactor. -/
theorem leaves_of_set {s s' : TcpServer Q} {i : Nat} {r r' : SubReactor Q}
    (hget : s.subReactors[i]? = some r) (h : s'.reactors = s.subReactors.set i r')
    (howned : r'.owned = r.owned) : Leaves s s' := by
  obtain ⟨hlt, rfl⟩ := List.getElem?_eq_some_iff.mp hget
  unfold Leaves
  rw [h, List.map_set, howned, ← List.getElem_map SubReactor.owned, List.set_getElem_self]
  rwa [List.length_map]

theorem owned_start (r : SubReactor Q) (addOk threadOk : Bool) :
    (r.start addOk threadOk).owned = r.owned := by
  have houtcome := r.start_outcome addOk threadOk
  generalize r.start addOk threadOk = after at houtcome ⊢
  cases houtcome with
  | refused hcreated => rfl
  | unregistered hcreated poller => rfl
  | running hcreated poller => rfl
  | threadless hcreated poller => rfl

/-- A step that accepts no client and does not end `Run`. -/
theorem leaves_runStep {c : ServerSetup} {input : RunInput} {s : TcpServer Q}
    (hother : s.acceptsClient c input = false) (hlive : s.point ≠ .returned)
    (hjoining : s.point = .joinSubReactors → s.subReactors.all threadEnded = false) :
    Leaves s (s.runStep c input) := by
  have hrefused {n : Nat} {ready : List ReadyEvent} {fd : Int} {initialised : Bool}
      (hpoint : s.point = .acceptNewClients n ready)
      (hlt : n < c.networkOptions.maxAcceptsPerEvent)
      (hclient : input.accept = .client fd initialised) : False := by
    simp only [acceptsClient, hclient, accepting, hpoint, decide_eq_false_iff_not] at hother
    exact hother hlt
  have houtcome := runStep_outcome c input s
  generalize s.runStep c input = after at houtcome ⊢
  cases houtcome with
  | goes h =>
      apply leaves_of_eq
      cases h with
      | returned hpoint => exact absurd hpoint hlive
      | _ => rfl
  | started h hget _ | startFailed h hget _ => exact leaves_of_set hget rfl (owned_start _ _ _)
  | stopped h hget | forced h hget _ | rescued h hget => exact leaves_of_set hget rfl rfl
  | unready fd h haccept hclient | undealt fd h haccept hclient _ | dealt fd h haccept hclient _ =>
      exact (hrefused h haccept hclient).elim
  | joined h hended =>
      rw [hjoining h] at hended
      cases hended
  | throws | opened | refused | served | sweeperFailed | drained | removeFailed | finished | round
  | forcedAll => exact leaves_of_eq rfl

theorem Leaves.held {s s' : TcpServer Q} (h : Leaves s s') :
    s'.reactors.flatMap SubReactor.held = s.subReactors.flatMap SubReactor.held := by
  have hheld (reactors : List (SubReactor Q)) : reactors.flatMap SubReactor.held =
      (reactors.map SubReactor.owned).flatMap fun owned => owned.1 ++ owned.2.keys := by
    rw [List.flatMap_map]
    rfl
  rw [hheld, h, ← hheld]

theorem Leaves.keyed {s s' : TcpServer Q} (h : Leaves s s')
    (hkeyed : ∀ r ∈ s.subReactors, r.Keyed) : ∀ r ∈ s'.reactors, r.Keyed := by
  intro r hmem
  have howned := List.mem_map_of_mem (f := SubReactor.owned) hmem
  rw [h] at howned
  obtain ⟨before, hbefore, heq⟩ := List.mem_map.mp howned
  have hclients : before.clients = r.clients := congrArg Prod.snd heq
  have hkept := hkeyed before hbefore
  unfold SubReactor.Keyed at hkept ⊢
  rwa [hclients] at hkept

theorem keyed_set {reactors : List (SubReactor Q)} (h : ∀ r ∈ reactors, r.Keyed) (i : Nat)
    {after : SubReactor Q} (hafter : after.Keyed) : ∀ r ∈ reactors.set i after, r.Keyed := by
  intro r hmem
  obtain hmem | rfl := List.mem_or_eq_of_mem_set hmem
  · exact h r hmem
  · exact hafter

theorem reactors_of_ne {s : TcpServer Q} (h : s.point ≠ .returned) :
    s.reactors = s.subReactors := by
  unfold reactors
  split
  · next hreturned => exact absurd hreturned h
  · rfl

theorem reactors_of_returned {s : TcpServer Q} (h : s.point = .returned) : s.reactors = [] := by
  unfold reactors
  rw [h]

theorem accepting_iff {c : ServerSetup} {s : TcpServer Q} :
    s.accepting c = true ↔ ∃ acceptedCount ready,
      s.point = .acceptNewClients acceptedCount ready ∧
        acceptedCount < c.networkOptions.maxAcceptsPerEvent := by
  unfold accepting
  split
  · next acceptedCount ready hpoint =>
    simp [hpoint]
  · next hother =>
    refine ⟨nofun, ?_⟩
    rintro ⟨acceptedCount, ready, hpoint, -⟩
    exact (hother acceptedCount ready hpoint).elim

end TcpServer

namespace ClientDescriptors

/-! ### The invariant -/

/-- The open descriptors are those that are held, and every client is kept under its own. -/
structure Owned (s : ClientDescriptors Q) : Prop where
  table : ∃ fds, DescriptorEvent.table [] s.events = some fds ∧ fds.Perm s.held
  keyed : ∀ r ∈ s.server.reactors, r.Keyed
  valid : ∀ fd ∈ s.client, 0 ≤ fd
  returned : s.server.point = .returned →
    s.client = none ∧ s.server.subReactors.all TcpServer.threadEnded = true

/-- A step that closes some of the descriptors that are held. -/
theorem Owned.close {s s' : ClientDescriptors Q} (h : s.Owned) {fds : List Int}
    (hevents : s'.events = s.events ++ fds.map .closed) (hheld : s.held.Perm (fds ++ s'.held))
    (hkeyed : ∀ r ∈ s'.server.reactors, r.Keyed) (hvalid : ∀ fd ∈ s'.client, 0 ≤ fd)
    (hreturned : s'.server.point = .returned →
      s'.client = none ∧ s'.server.subReactors.all TcpServer.threadEnded = true) :
    s'.Owned := by
  refine ⟨?_, hkeyed, hvalid, hreturned⟩
  obtain ⟨opened, htable, hperm⟩ := h.table
  rw [hevents, DescriptorEvent.table_append, htable, Option.bind_some]
  exact DescriptorEvent.table_closed (hperm.trans hheld)

/-- Before the end of `Run`, when `client` is gone as well. -/
theorem Owned.close_client {s s' : ClientDescriptors Q} (h : s.Owned) {fds : List Int}
    (hclient : s'.client = none) (hpoint : s'.server.point ≠ .returned)
    (hevents : s'.events = s.events ++ fds.map .closed) (hheld : s.held.Perm (fds ++ s'.held))
    (hkeyed : ∀ r ∈ s'.server.reactors, r.Keyed) : s'.Owned := by
  apply h.close hevents hheld hkeyed
  · intro fd hmem
    rw [hclient] at hmem
    cases hmem
  · intro hreturned
    exact absurd hreturned hpoint

/-- Nothing is held once `Run` has destroyed the sub reactors. -/
theorem Owned.held_of_returned {s : ClientDescriptors Q} (h : s.Owned)
    (hreturned : s.server.point = .returned) : s.held = [] := by
  unfold ClientDescriptors.held
  rw [(h.returned hreturned).1, TcpServer.reactors_of_returned hreturned]
  rfl

/-- The end of `Run` destroys the sub reactors. -/
theorem Owned.join {s : ClientDescriptors Q} (h : s.Owned) (c : ServerSetup) (input : RunInput)
    (hclient : s.client = none) (hpoint : s.server.point = .joinSubReactors)
    (hended : s.server.subReactors.all TcpServer.threadEnded = true) :
    Owned { s.closing s.server.closedByRunStep with server := s.server.runStep c input } := by
  have hafter : s.server.runStep c input =
      { s.server with listening := false, state := .stopped, point := .returned } := by
    unfold TcpServer.runStep
    rw [hpoint]
    exact if_pos hended
  have hclosed : s.server.closedByRunStep =
      s.server.subReactors.flatMap SubReactor.closedByDestructor := by
    unfold TcpServer.closedByRunStep
    rw [hpoint]
    exact if_pos hended
  have hreactors : s.server.reactors = s.server.subReactors := by
    apply TcpServer.reactors_of_ne
    rw [hpoint]
    nofun
  have hdestroyed : (s.server.subReactors.flatMap SubReactor.held).Perm
      (s.server.subReactors.flatMap SubReactor.closedByDestructor) := by
    apply List.Perm.flatMap_left
    intro r hmem
    exact SubReactor.held_destructor (h.keyed r (hreactors ▸ hmem))
  rw [hafter, hclosed]
  refine h.close rfl ?_ (List.forall_mem_nil _) h.valid fun _ => ⟨hclient, hended⟩
  have hbefore : s.held = s.server.subReactors.flatMap SubReactor.held := by
    rw [ClientDescriptors.held, hclient, hreactors]
    rfl
  rw [hbefore]
  simp only [ClientDescriptors.held, closing, hclient, TcpServer.reactors, Option.toList_none,
    List.flatMap_nil, List.append_nil]
  exact hdestroyed

/-- Otherwise the thread in `Run` does not touch the descriptors, unless it accepts a client. -/
theorem Owned.runStep {s : ClientDescriptors Q} (h : s.Owned) (c : ServerSetup)
    (input : RunInput) : (s.runStep c input).Owned := by
  unfold ClientDescriptors.runStep
  split
  · exact h
  next hother =>
    rw [Bool.or_eq_true, not_or, Bool.not_eq_true, Bool.not_eq_true,
      Option.isSome_eq_false_iff, Option.isNone_iff_eq_none] at hother
    obtain ⟨hclient, hother⟩ := hother
    by_cases hjoined : s.server.point = .joinSubReactors ∧
        s.server.subReactors.all TcpServer.threadEnded = true
    · exact h.join c input hclient hjoined.1 hjoined.2
    have hclosed : s.server.closedByRunStep = [] := by
      unfold TcpServer.closedByRunStep
      split
      · next hpoint => exact if_neg fun hended => hjoined ⟨hpoint, hended⟩
      · rfl
    by_cases hreturned : s.server.point = .returned
    · have hsame : s.server.runStep c input = s.server := by
        unfold TcpServer.runStep
        rw [hreturned]
      rw [hsame, hclosed]
      exact h.close rfl (.refl _) h.keyed h.valid h.returned
    have hreactors := TcpServer.reactors_of_ne hreturned
    have hleaves : TcpServer.Leaves s.server (s.server.runStep c input) :=
      TcpServer.leaves_runStep hother hreturned fun hpoint => by
        rw [← Bool.not_eq_true]
        exact fun hended => hjoined ⟨hpoint, hended⟩
    have hlength := TcpServer.length_subReactors_step c s.server (.run input)
    rw [hclosed]
    refine h.close rfl ?_ ?_ h.valid fun hafter => ⟨hclient, ?_⟩
    · simp only [ClientDescriptors.held, closing, hreactors, hleaves.held]
      exact .refl _
    · exact hleaves.keyed (hreactors ▸ h.keyed)
    · -- Only without sub reactors could another step have reached the end.
      have hnone : s.server.subReactors = [] := by
        unfold TcpServer.Leaves at hleaves
        rw [TcpServer.reactors_of_returned hafter] at hleaves
        exact List.map_eq_nil_iff.mp hleaves.symm
      rw [hnone] at hlength
      have hempty := List.eq_nil_of_length_eq_zero hlength
      change (s.server.runStep c input).subReactors.all TcpServer.threadEnded = true
      change (s.server.runStep c input).subReactors = [] at hempty
      rw [hempty]
      rfl

/-- A number that is not in use is held by `client` only. -/
theorem Owned.accept {s : ClientDescriptors Q} (h : s.Owned) (c : ServerSetup) {fd : Int}
    (hfresh : s.Fresh (.accept fd)) : (s.accept c fd).Owned := by
  unfold ClientDescriptors.accept
  split
  · next haccepting =>
    rw [Bool.and_eq_true, Option.isNone_iff_eq_none] at haccepting
    obtain ⟨hclient, haccepting⟩ := haccepting
    obtain ⟨fds, htable, hperm⟩ := h.table
    refine ⟨⟨fd :: fds, ?_, ?_⟩, h.keyed, ?_, fun hreturned => ?_⟩
    · rw [DescriptorEvent.table_append, htable, Option.bind_some]
      exact DescriptorEvent.table_opened (hfresh.2 fds htable)
    · have hbefore : s.held = s.server.reactors.flatMap SubReactor.held := by
        rw [ClientDescriptors.held, hclient]
        rfl
      rw [hbefore] at hperm
      exact hperm.cons fd
    · intro fd' hfd'
      cases hfd'
      exact hfresh.1
    · change s.server.point = .returned at hreturned
      rw [TcpServer.accepting, hreturned] at haccepting
      cases haccepting
  · exact h

/-- `client` is handed over to a sub reactor, or it is closed. -/
theorem Owned.handOver {s : ClientDescriptors Q} (h : s.Owned) (c : ServerSetup)
    (input : RunInput) (initialised : Bool) : (s.handOver c input initialised).Owned := by
  unfold ClientDescriptors.handOver
  cases hclient : s.client with
  | none => exact h
  | some fd =>
      have hfd : 0 ≤ fd := h.valid fd hclient
      simp only
      split
      swap
      · exact h
      next haccepting =>
        obtain ⟨acceptedCount, ready, hpoint, hbudget⟩ := TcpServer.accepting_iff.mp haccepting
        have hreactors : s.server.reactors = s.server.subReactors := by
          apply TcpServer.reactors_of_ne
          rw [hpoint]
          intro hsame
          cases hsame
        have hbefore : s.held = [fd] ++ s.server.subReactors.flatMap SubReactor.held := by
          rw [ClientDescriptors.held, hclient, hreactors]
          rfl
        have hkeyed : ∀ r ∈ s.server.subReactors, r.Keyed := hreactors ▸ h.keyed
        unfold TcpServer.runStep TcpServer.closedByHandOver
        rw [hpoint]
        simp only [TcpServer.acceptNewClients, if_neg (Nat.not_le.mpr hbudget)]
        cases initialised with
        | false =>
            apply h.close_client rfl _ rfl
            · rw [hbefore]
              exact .refl _
            · exact hkeyed
            · intro hreturned
              cases hreturned
        | true =>
            simp only [Bool.not_true, Bool.false_eq_true, if_false]
            cases hget : s.server.subReactors[s.server.nextSubReactorIndex]? with
            | none =>
                apply h.close_client rfl _ rfl
                · rw [hbefore]
                  exact .refl _
                · exact hkeyed
                · intro hreturned
                  cases hreturned
            | some r =>
                apply h.close_client rfl _ rfl
                · rw [hbefore]
                  exact perm_flatMap_set hget (r.held_enqueClient hfd)
                · have hr := hkeyed r (List.mem_of_getElem? hget)
                  exact TcpServer.keyed_set hkeyed _ (hr.enqueClient fd)
                · intro hreturned
                  cases hreturned

/-- A thread that has ended does nothing. -/
theorem loopStep_of_ended {r : SubReactor Q} (h : TcpServer.threadEnded r = true)
    (o : NetworkOptions) (input : LoopInput Q) (stage : SubReactor.LoopStage) :
    r.loopStep o input stage = ⟨stage, r, []⟩ := by
  simp only [TcpServer.threadEnded, Bool.or_eq_true, beq_iff_eq] at h
  exact if_pos h

/-- An operation of a sub reactor closes what this does not hold any more. -/
theorem Owned.loop {s : ClientDescriptors Q} (h : s.Owned) (c : ServerSetup) (i : Nat)
    (input : LoopInput Q) : (s.loop c i input).Owned := by
  unfold ClientDescriptors.loop
  cases hget : s.server.subReactors[i]? with
  | none => exact h
  | some r =>
      simp only
      by_cases hreturned : s.server.point = .returned
      · have hended : TcpServer.threadEnded r = true :=
          List.all_eq_true.mp (h.returned hreturned).2 r (List.mem_of_getElem? hget)
        have hset : s.server.subReactors.set i r = s.server.subReactors := by
          obtain ⟨hlt, rfl⟩ := List.getElem?_eq_some_iff.mp hget
          exact List.set_getElem_self hlt
        have hserver : s.server.withSubReactor i r = s.server := by
          rw [TcpServer.withSubReactor, hset]
        rw [loopStep_of_ended hended]
        simp only [hserver]
        exact h.close rfl (.refl _) h.keyed h.valid h.returned
      have hreactors := TcpServer.reactors_of_ne hreturned
      have hafter : (s.server.withSubReactor i
          (r.loopStep c.networkOptions input (s.stages i)).reactor).reactors =
            s.server.subReactors.set i
              (r.loopStep c.networkOptions input (s.stages i)).reactor :=
        TcpServer.reactors_of_ne hreturned
      have hkeyed : ∀ r ∈ s.server.subReactors, r.Keyed := hreactors ▸ h.keyed
      have hr := hkeyed r (List.mem_of_getElem? hget)
      apply h.close rfl
      · simp only [ClientDescriptors.held, hreactors, hafter]
        have hheld : ([] ++ r.held).Perm _ :=
          SubReactor.held_loopStep hr c.networkOptions input (s.stages i)
        have hall := perm_flatMap_set hget hheld
        exact (hall.append_left s.client.toList).trans (List.perm_append_comm_assoc ..)
      · simp only [hafter]
        exact TcpServer.keyed_set hkeyed i (hr.loopStep c.networkOptions input (s.stages i))
      · exact h.valid
      · exact fun hafter => absurd hafter hreturned

/-- One step keeps the invariant. -/
theorem Owned.step {s : ClientDescriptors Q} (h : s.Owned) (c : ServerSetup)
    (action : Action Q) (hfresh : s.Fresh action) : (s.step c action).Owned := by
  cases action with
  | run input => exact h.runStep c input
  | accept fd => exact h.accept c hfresh
  | handOver input initialised => exact h.handOver c input initialised
  | stop => exact ⟨h.table, h.keyed, h.valid, h.returned⟩
  | loop i input => exact h.loop c i input

theorem held_created (c : ServerSetup) (store : Store Q) : (created c store).held = [] := by
  apply List.flatMap_eq_nil_iff.mpr
  intro r hmem
  obtain ⟨i, -, rfl⟩ := List.mem_map.mp hmem
  rfl

theorem owned_created (c : ServerSetup) (store : Store Q) : (created c store).Owned where
  table := by
    refine ⟨[], rfl, ?_⟩
    rw [held_created]
  keyed r hmem fd conn hlook := by
    obtain ⟨i, -, rfl⟩ := List.mem_map.mp hmem
    cases hlook
  valid := nofun
  returned := nofun

/-- The invariant holds in every run in which `accept` returns fresh numbers. -/
theorem owned_run (c : ServerSetup) (store : Store Q) {actions : List (Action Q)}
    (hfresh : (machine c).Meets Fresh (created c store) actions) :
    ((created c store).run c actions).Owned :=
  (machine c).run_invariant_of_meets (fun _ action h hfresh => h.step c action hfresh)
    (owned_created c store) hfresh

/-! ### The steps of the server -/

/-- The operations of one sub reactor, which nothing interrupts; by induction on them. -/
theorem run_loop (c : ServerSetup) (i : Nat) (inputs : List (LoopInput Q))
    {s : ClientDescriptors Q} {r : SubReactor Q} (hget : s.server.subReactors[i]? = some r)
    {stage : SubReactor.LoopStage} {after : SubReactor Q}
    (h : (SubReactor.loop c.networkOptions).run (s.stages i, r) inputs = (stage, after)) :
    (s.run c (inputs.map (.loop i))).server = s.server.withSubReactor i after ∧
      (s.run c (inputs.map (.loop i))).client = s.client ∧
      (s.run c (inputs.map (.loop i))).stages = Function.update s.stages i stage := by
  induction inputs generalizing s r with
  | nil =>
      cases h
      obtain ⟨hlt, rfl⟩ := List.getElem?_eq_some_iff.mp hget
      refine ⟨?_, rfl, (Function.update_eq_self i s.stages).symm⟩
      rw [TcpServer.withSubReactor, List.set_getElem_self]
      rfl
  | cons input rest ih =>
      obtain ⟨hlt, -⟩ := List.getElem?_eq_some_iff.mp hget
      have hstep : s.loop c i input =
          { s.closing (r.loopStep c.networkOptions input (s.stages i)).closed with
            server := s.server.withSubReactor i
              (r.loopStep c.networkOptions input (s.stages i)).reactor
            stages := Function.update s.stages i
              (r.loopStep c.networkOptions input (s.stages i)).stage } := by
        unfold loop
        rw [hget]
      have hafter : (s.loop c i input).server.subReactors[i]? =
          some (r.loopStep c.networkOptions input (s.stages i)).reactor := by
        rw [hstep]
        exact List.getElem?_set_self hlt
      have hstage : (s.loop c i input).stages i =
          (r.loopStep c.networkOptions input (s.stages i)).stage := by
        rw [hstep]
        exact Function.update_self i _ s.stages
      obtain ⟨hserver, hclient, hstages⟩ := ih hafter (by rw [hstage]; exact h)
      change ((s.loop c i input).run c (rest.map (.loop i))).server = _ ∧
        ((s.loop c i input).run c (rest.map (.loop i))).client = _ ∧
        ((s.loop c i input).run c (rest.map (.loop i))).stages = _
      rw [hserver, hclient, hstages, hstep]
      refine ⟨?_, rfl, Function.update_idem ..⟩
      simp only [TcpServer.withSubReactor, List.set_set]

/-- A server between the iterations of its sub reactors, with no client in the frame. -/
structure Settled (server : TcpServer Q) (s : ClientDescriptors Q) : Prop where
  server : s.server = server
  client : s.client = none
  stages : ∀ i, s.stages i = .wait

/-- The acceptance of a client is two steps here. -/
theorem settled_accept {s : ClientDescriptors Q} (hclient : s.client = none)
    (hstages : ∀ i, s.stages i = .wait) {c : ServerSetup} {input : RunInput}
    (haccepts : s.server.acceptsClient c input = true) :
    ∃ more, Settled (s.server.runStep c input) (s.run c more) := by
  unfold TcpServer.acceptsClient at haccepts
  split at haccepts
  · next fd initialised haccept =>
    have hinput : { input with accept := .client fd initialised } = input := by
      rw [← haccept]
    refine ⟨[.accept fd, .handOver input initialised], ?_⟩
    have hstep : s.run c [.accept fd, .handOver input initialised] =
        { s.closing (s.server.closedByHandOver fd initialised) with
          events := s.events ++ [.opened fd] ++
            (s.server.closedByHandOver fd initialised).map .closed
          server := s.server.runStep c input
          client := none } := by
      change (s.accept c fd).handOver c input initialised = _
      simp only [ClientDescriptors.accept, hclient, Option.isNone_none, Bool.true_and,
        haccepts, if_true, ClientDescriptors.handOver, hinput, closing]
    rw [hstep]
    exact ⟨rfl, rfl, hstages⟩
  · cases haccepts

/-- A step of the server is made up of steps here. -/
theorem settled_step {server : TcpServer Q} {s : ClientDescriptors Q} (h : Settled server s)
    (c : ServerSetup) (action : TcpServer.Action Q) :
    ∃ more, Settled (server.step c action) (s.run c more) := by
  obtain ⟨rfl, hclient, hstages⟩ := h
  cases action with
  | run input =>
      cases haccepts : s.server.acceptsClient c input with
      | true => exact settled_accept hclient hstages haccepts
      | false =>
          refine ⟨[.run input], ?_⟩
          have hstep : s.run c [.run input] =
              { s.closing s.server.closedByRunStep with server := s.server.runStep c input } := by
            change s.runStep c input = _
            unfold ClientDescriptors.runStep
            rw [hclient, haccepts]
            rfl
          rw [hstep]
          exact ⟨rfl, hclient, hstages⟩
  | stop => exact ⟨[.stop], rfl, hclient, hstages⟩
  | subReactor i input =>
      simp only [TcpServer.step]
      cases hget : s.server.subReactors[i]? with
      | none => exact ⟨[], rfl, hclient, hstages⟩
      | some r =>
          obtain ⟨inputs, hinputs⟩ := r.loop_iterate c.networkOptions input
          rw [← hstages i] at hinputs
          obtain ⟨hserver, hclient', hstages'⟩ := run_loop c i inputs hget hinputs
          refine ⟨inputs.map (.loop i), hserver, hclient'.trans hclient, fun j => ?_⟩
          rw [hstages', Function.update_eq_self]
          exact hstages j

/-- Every run of the server is one of these. -/
theorem server_run (c : ServerSetup) (store : Store Q) (actions : List (TcpServer.Action Q)) :
    ∃ more, ((created c store).run c more).server =
      (TcpServer.created c store).run c actions := by
  have hcreated : Settled (TcpServer.created c store) (created c store) :=
    ⟨rfl, rfl, fun _ => rfl⟩
  obtain ⟨more, hmore⟩ := (TcpServer.machine c).run_simulated (machine c) (R := Settled)
    (fun h action => settled_step h c action) hcreated actions
  exact ⟨more, hmore.server⟩

/-- As long as `accept` returns numbers that are not in use, the open descriptors are those that
the frame of `AcceptNewClients` and the sub reactors hold, each in one place, and those of the
clients under their own keys; no new client is found to exist already. A descriptor is closed
only while it is open, and as often as it has been accepted when it is not held any more, which
is the case of all descriptors when `Run` has returned. -/
theorem descriptors_owned_once (c : ServerSetup) (store : Store Q) (actions : List (Action Q))
    (hfresh : (machine c).Meets Fresh (created c store) actions) :
    let s := (created c store).run c actions
    (∃ fds, DescriptorEvent.table [] s.events = some fds ∧ fds.Perm s.held) ∧
      s.held.Nodup ∧
      (∀ r ∈ s.server.reactors, r.Keyed ∧
        ∀ addOk, ¬ SubReactor.FindsExisting addOk r.pendingClients
          { r with pendingClients := [] }) ∧
      (∀ fd, s.events.count (.opened fd) = s.events.count (.closed fd) + s.held.count fd) ∧
      (s.server.point = .returned → s.held = []) := by
  intro s
  have howned := owned_run c store hfresh
  change s.Owned at howned
  obtain ⟨fds, htable, hperm⟩ := howned.table
  have honce : s.held.Nodup :=
    hperm.nodup_iff.mp (DescriptorEvent.nodup_of_table List.nodup_nil htable)
  refine ⟨howned.table, honce, fun r hmem => ⟨howned.keyed r hmem, fun addOk => ?_⟩, fun fd => ?_,
    howned.held_of_returned⟩
  · apply SubReactor.not_findsExisting
    have hreactors := honce.of_append_right
    exact (List.nodup_flatMap.mp hreactors).1 r hmem
  · have hcount := DescriptorEvent.count_of_table htable fd
    rw [hperm.count_eq, List.count_nil, Nat.zero_add] at hcount
    exact hcount

/-- A step of the main reactor in which no system call fails. -/
def smoothly (ready : List ReadyEvent) : RunInput where
  socketsOk := true
  addOk := true
  threadOk := true
  sweeperOk := true
  ready := some ready
  drainOk := true
  removeOk := true
  accept := .wouldBlock
  now := 0

/-- A client is accepted as descriptor 7 and fails, and the next one is given the same number within
the iteration that closes the first. -/
def acceptAgain : List (Action sortedExpirations) :=
  List.replicate 3 (.run (smoothly [])) ++
    List.replicate 4 (.run (smoothly [⟨4, { read := true }⟩])) ++
    [.accept 7, .handOver (smoothly []) true] ++
    List.replicate 6 (.loop 0 (SubReactor.readPing [⟨3, { read := true }⟩])) ++
    List.replicate 4 (.loop 0 (SubReactor.readPing [⟨7, { error := true }⟩])) ++
    [.accept 7, .handOver (smoothly []) true]

/-- The second client is held in the queue of the sub reactor, and the first has been closed. -/
theorem descriptors_owned_once_again :
    let s := (created TcpServer.oneSubReactor Store.empty).run TcpServer.oneSubReactor acceptAgain
    s.events = [.opened 7, .closed 7, .opened 7] ∧
      s.server.reactors.map (·.pendingClients) = [[7]] ∧
      (∃ fds, DescriptorEvent.table [] s.events = some fds ∧ fds.Perm s.held) ∧
      s.held.Nodup ∧
      (∀ r ∈ s.server.reactors, r.Keyed ∧
        ∀ addOk, ¬ SubReactor.FindsExisting addOk r.pendingClients
          { r with pendingClients := [] }) ∧
      (∀ fd, s.events.count (.opened fd) = s.events.count (.closed fd) + s.held.count fd) ∧
      (s.server.point = .returned → s.held = []) :=
  ⟨by decide +kernel, by decide +kernel,
    descriptors_owned_once TcpServer.oneSubReactor Store.empty acceptAgain (by decide +kernel)⟩

end ClientDescriptors

end TinyKv
