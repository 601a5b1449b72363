import TinyKv.Foundation.RoundRobin
import TinyKv.Net.TcpServer

/-!
# The distribution of the clients

`AcceptNewClients` deals the clients in turn to the sub reactors, whatever else happens in
between: clients that cannot be initialised take no turn, and a client that a sub reactor
refuses is not dealt again.
-/

namespace TinyKv

open Foundation

variable {Q : ExpirationQueue}

namespace MainCall

/-- The client and the sub reactor it is handed to. -/
def handed : MainCall → Option (Nat × Int)
  | .enqueClient reactor fd => some (reactor, fd)
  | _ => none

/-- The client that is accepted. -/
def accepted : MainCall → Option Int
  | .accept fd => some fd
  | _ => none

end MainCall

namespace TcpServer

/-- The clients that have been handed out, each with its sub reactor. -/
def handedOut (s : TcpServer Q) : List (Nat × Int) := s.calls.filterMap MainCall.handed

/-- The clients that have been accepted. -/
def acceptedClients (s : TcpServer Q) : List Int := s.calls.filterMap MainCall.accepted

/-- The clients have been dealt in turn, and `m_nextSubReactorIndex` knows whose turn it is. -/
structure Dealt (s : TcpServer Q) : Prop where
  turn : 0 < s.subReactors.length →
    s.nextSubReactorIndex = s.handedOut.length % s.subReactors.length
  dealt : s.handedOut = deal s.subReactors.length 0 (s.handedOut.map Prod.snd)
  accepted : (s.handedOut.map Prod.snd).Sublist s.acceptedClients

/-- What a step does to the clients: nothing, or it accepts one and may hand it out. -/
inductive Dispatch (s after : TcpServer Q) : Prop where
  | idle (hhanded : after.handedOut = s.handedOut)
      (haccepted : after.acceptedClients = s.acceptedClients)
      (hnext : after.nextSubReactorIndex = s.nextSubReactorIndex)
  | unready (fd : Int) (hhanded : after.handedOut = s.handedOut)
      (haccepted : after.acceptedClients = s.acceptedClients ++ [fd])
      (hnext : after.nextSubReactorIndex = s.nextSubReactorIndex ∨
        s.subReactors.length ≤ s.nextSubReactorIndex)
  | handed (fd : Int) (hlt : s.nextSubReactorIndex < s.subReactors.length)
      (hhanded : after.handedOut = s.handedOut ++ [(s.nextSubReactorIndex, fd)])
      (haccepted : after.acceptedClients = s.acceptedClients ++ [fd])
      (hnext : after.nextSubReactorIndex =
        (s.nextSubReactorIndex + 1) % s.subReactors.length)

/-- Other calls deal no clients. -/
theorem Dispatch.call {s after : TcpServer Q} {call : MainCall}
    (hcalls : after.calls = s.calls ++ [call]) (hhanded : call.handed = none)
    (haccepted : call.accepted = none)
    (hnext : after.nextSubReactorIndex = s.nextSubReactorIndex) : Dispatch s after := by
  apply Dispatch.idle
  · simp [handedOut, hcalls, hhanded]
  · simp [acceptedClients, hcalls, haccepted]
  · exact hnext

theorem Dispatch.same {s after : TcpServer Q} (hcalls : after.calls = s.calls)
    (hnext : after.nextSubReactorIndex = s.nextSubReactorIndex) : Dispatch s after :=
  .idle (by rw [handedOut, hcalls, handedOut]) (by rw [acceptedClients, hcalls, acceptedClients])
    hnext

/-- Clients are accepted and dealt in one place only. -/
theorem dispatch_runStep (c : ServerSetup) (input : RunInput) (s : TcpServer Q) :
    Dispatch s (s.runStep c input) := by
  have hhanded (fd : Int) :
      (s.calls ++ [MainCall.accept fd]).filterMap MainCall.handed = s.handedOut := by
    rw [List.filterMap_append]
    exact List.append_nil _
  have haccepted (fd : Int) : (s.calls ++ [MainCall.accept fd]).filterMap MainCall.accepted =
      s.acceptedClients ++ [fd] := by
    rw [List.filterMap_append]
    rfl
  have houtcome := runStep_outcome c input s
  generalize s.runStep c input = after at houtcome ⊢
  cases houtcome with
  | unready fd => exact .unready fd (hhanded fd) (haccepted fd) (.inl rfl)
  | undealt fd _ _ _ hlast => exact .unready fd (hhanded fd) (haccepted fd) (.inr hlast)
  | dealt fd _ _ _ hget =>
      obtain ⟨hlt, -⟩ := List.getElem?_eq_some_iff.mp hget
      refine .handed fd hlt ?_ ?_ rfl
      · rw [handedOut, List.filterMap_append, hhanded]
        rfl
      · rw [acceptedClients, List.filterMap_append, haccepted]
        exact List.append_nil _
  | stopped | round | forced | rescued => exact .call rfl rfl rfl rfl
  | goes | throws | opened | refused | started | startFailed | served | sweeperFailed | drained
  | removeFailed | finished | forcedAll | joined => exact .same rfl rfl

theorem dispatch_step (c : ServerSetup) (s : TcpServer Q) (action : Action Q) :
    Dispatch s (s.step c action) := by
  cases action with
  | run input => exact dispatch_runStep c input s
  | stop => exact .same rfl rfl
  | subReactor i input =>
      simp only [step]
      cases s.subReactors[i]? with
      | some r => exact .same rfl rfl
      | none => exact .same rfl rfl

/-- A step deals at most one client, to the sub reactor whose turn it is. -/
theorem Dealt.step {s : TcpServer Q} (h : s.Dealt) (c : ServerSetup) (action : Action Q) :
    (s.step c action).Dealt := by
  have hlength := length_subReactors_step c s action
  have hdispatch := dispatch_step c s action
  generalize s.step c action = after at hlength hdispatch ⊢
  cases hdispatch with
  | idle hhanded haccepted hnext =>
      refine ⟨?_, ?_, ?_⟩
      · rw [hlength, hnext, hhanded]
        exact h.turn
      · rw [hlength, hhanded]
        exact h.dealt
      · rw [hhanded, haccepted]
        exact h.accepted
  | unready fd hhanded haccepted hnext =>
      refine ⟨?_, ?_, ?_⟩
      · rw [hlength, hhanded]
        intro hpos
        obtain hnext | hle := hnext
        · rw [hnext]
          exact h.turn hpos
        · rw [h.turn hpos] at hle
          exact absurd (Nat.mod_lt _ hpos) (Nat.not_lt.mpr hle)
      · rw [hlength, hhanded]
        exact h.dealt
      · rw [hhanded, haccepted]
        exact h.accepted.trans (List.sublist_append_left ..)
  | handed fd hlt hhanded haccepted hnext =>
      have hpos : 0 < s.subReactors.length := Nat.lt_of_le_of_lt (Nat.zero_le _) hlt
      have hturn := h.turn hpos
      refine ⟨?_, ?_, ?_⟩
      · intro _
        rw [hlength, hnext, hhanded, hturn, List.length_append, List.length_singleton,
          Nat.mod_add_mod]
      · rw [hlength, hhanded, List.map_append, deal_append, ← h.dealt, List.length_map,
          Nat.zero_add, hturn]
        rfl
      · rw [hhanded, haccepted, List.map_append]
        exact h.accepted.append (List.Sublist.refl _)

/-- In every run of a server, the clients that have been handed out have been dealt in turn to
the sub reactors, in the order in which they were accepted; so no sub reactor has been handed
more than one client more than another. -/
theorem clients_dealt (c : ServerSetup) (store : Store Q) (actions : List (Action Q)) :
    let s := (created c store).run c actions
    let clients := s.handedOut.map Prod.snd
    s.handedOut = deal s.subReactors.length 0 clients ∧
      clients.Sublist s.acceptedClients ∧
      ∀ i < s.subReactors.length, ∀ j < s.subReactors.length,
        (dealtTo i s.handedOut).length ≤ (dealtTo j s.handedOut).length + 1 := by
  intro s clients
  have hdealt : s.Dealt := by
    apply (machine c).run_invariant (I := Dealt) (fun _ h action _ => h.step c action)
    exact ⟨fun hpos => (Nat.zero_mod _).symm, rfl, List.Sublist.refl _⟩
  refine ⟨hdealt.dealt, hdealt.accepted, fun i hi j hj => ?_⟩
  rw [hdealt.dealt]
  exact length_dealtTo_le hi hj _

end TcpServer

end TinyKv
