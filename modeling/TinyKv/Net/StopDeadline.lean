import Mathlib.Order.Bounds.Basic
import TinyKv.Net.ControlRequests

/-!
# The deadline of a shutdown

`Stop` keeps the earliest of the deadlines it is called with, under `m_controlMutex`. The event
loop adopts it when `ProcessControlRequests` makes a running reactor drain; for a reactor that
drains already, `BeginGracefulShutdown` returns at once.
-/

namespace TinyKv

open Foundation

variable {Q : ExpirationQueue}

namespace SubReactor

/-- What happens to the deadlines of a reactor on its way to `after`. -/
inductive Timed (takes : Bool) (r after : SubReactor Q) : Prop where
  | kept (hstate : after.state = .draining → r.state = .draining)
      (hrequested : after.requestedShutdownDeadline = r.requestedShutdownDeadline)
      (hdeadline : after.shutdownDeadline = r.shutdownDeadline)
  | adopted (hstate : r.state = .running) (htakes : takes = true)
      (hstop : r.stopRequested = true)
      (hrequested : after.requestedShutdownDeadline = r.requestedShutdownDeadline)
      (hdeadline : after.shutdownDeadline = r.requestedShutdownDeadline)

theorem Timed.refl (takes : Bool) (r : SubReactor Q) : Timed takes r r := .kept id rfl rfl

/-- After the control members have been taken, no deadline is adopted. -/
theorem Timed.trans {takes : Bool} {r mid after : SubReactor Q} (hmid : Timed takes r mid)
    (hafter : Timed false mid after) : Timed takes r after := by
  cases hafter with
  | adopted hstate htakes hstop hrequested hdeadline => cases htakes
  | kept hstate hrequested hdeadline =>
      cases hmid with
      | kept hstate' hrequested' hdeadline' =>
          exact .kept (fun hdraining => hstate' (hstate hdraining))
            (hrequested.trans hrequested') (hdeadline.trans hdeadline')
      | adopted hstate' htakes' hstop' hrequested' hdeadline' =>
          exact .adopted hstate' htakes' hstop' (hrequested.trans hrequested')
            (hdeadline.trans hdeadline')

theorem timed_fail (takes : Bool) (r : SubReactor Q) : Timed takes r r.fail :=
  .kept nofun rfl rfl

theorem timed_handleReady (o : NetworkOptions) (io : Nat → IoInput Q) (modityOk : Nat → Bool)
    (ready : List ReadyEvent) (r : SubReactor Q) :
    Timed false r (handleReady o io modityOk ready r).2 := by
  obtain ⟨poller, clients, store, heq⟩ := handleReady_eq o io modityOk ready r
  rw [heq]
  exact .kept id rfl rfl

theorem timed_checkShutdownProgress (r : SubReactor Q) (input : LoopInput Q) :
    Timed false r (r.checkShutdownProgress input) := by
  have houtcome := r.checkShutdownProgress_outcome input
  generalize r.checkShutdownProgress input = after at houtcome ⊢
  cases houtcome with
  | serving hstate => exact .refl _ r
  | drained hstate hempty => exact .kept nofun rfl rfl
  | late hstate hclients hlate => exact .kept nofun rfl rfl
  | waiting hstate hclients hearly => exact .kept id rfl rfl

/-- A reactor that begins to drain adopts the deadline. -/
theorem drainAll_deadlines (o : NetworkOptions) (input : LoopInput Q) (deadline : TimePoint)
    (r : SubReactor Q) :
    (drainAll o input deadline r).2.requestedShutdownDeadline = r.requestedShutdownDeadline ∧
      (drainAll o input deadline r).2.shutdownDeadline = deadline := by
  obtain ⟨poller, clients, heq⟩ := drainAll_eq o input deadline r
  rw [heq]
  exact ⟨rfl, rfl⟩

theorem timed_beginGracefulShutdown (o : NetworkOptions) (input : LoopInput Q)
    {r : SubReactor Q} (hstop : r.stopRequested = true) :
    Timed true r (beginGracefulShutdown o input r.requestedShutdownDeadline r).2 := by
  have hdeadlines := drainAll_deadlines o input r.requestedShutdownDeadline r
  have houtcome := beginGracefulShutdown_outcome o input r.requestedShutdownDeadline r
  generalize beginGracefulShutdown o input r.requestedShutdownDeadline r = result at houtcome ⊢
  cases houtcome with
  | repeated hstate => exact .refl _ r
  | failed hstate hdrained =>
      rw [hdrained] at hdeadlines
      exact .adopted hstate rfl hstop hdeadlines.1 hdeadlines.2
  | finished hstate hdrained hempty =>
      rw [hdrained] at hdeadlines
      exact .adopted hstate rfl hstop hdeadlines.1 hdeadlines.2
  | begun hstate hdrained hclients =>
      rw [hdrained] at hdeadlines
      exact .adopted hstate rfl hstop hdeadlines.1 hdeadlines.2

theorem timed_processControlRequests (o : NetworkOptions) (input : LoopInput Q)
    (r : SubReactor Q) : Timed true r (processControlRequests o input r).2 := by
  unfold processControlRequests
  simp only
  split
  · exact .kept nofun rfl rfl
  split
  · next hstop =>
    have htimed := timed_beginGracefulShutdown o input (r := { r with pendingClients := [] }) hstop
    cases htimed with
    | kept hstate hrequested hdeadline => exact .kept hstate hrequested hdeadline
    | adopted hstate htakes hstop hrequested hdeadline =>
        exact .adopted hstate htakes hstop hrequested hdeadline
  · obtain ⟨poller, clients, calls, heq⟩ :=
      addClients_eq r.pendingClients input.addOk { r with pendingClients := [] }
    rw [heq]
    exact .kept id rfl rfl

/-- Only an iteration that takes the control members adopts a deadline. -/
theorem timed_iterate {r : SubReactor Q} (hlive : ¬ (r.state = .created ∨ r.state = .stopped))
    (o : NetworkOptions) (input : LoopInput Q) :
    Timed (r.takesControl input) r (r.iterate o input) := by
  have hmid {ready : List ReadyEvent} {mid : SubReactor Q} (hready : input.ready = some ready)
      (hmid : AfterControl o input ready r mid) : Timed (r.takesControl input) r mid := by
    obtain ⟨hcontrol, rfl⟩ | ⟨hcontrol, hdrain, hprocess⟩ := hmid
    · exact .refl _ _
    · have htakes : r.takesControl input = true := by
        simp [takesControl, hready, hcontrol, hdrain]
      have htimed := timed_processControlRequests o input r
      rw [hprocess] at htimed
      rw [htakes]
      exact htimed
  have houtcome := iteration_outcome o input r
  rw [iterate, if_neg hlive]
  generalize r.iteration o input = result at houtcome ⊢
  cases houtcome with
  | waitFailed hready => exact timed_fail _ r
  | drainFailed hready hcontrol hdrain => exact timed_fail _ r
  | @controlFailed ready after hready hcontrol hdrain hprocess =>
      have htakes : r.takesControl input = true := by
        simp [takesControl, hready, hcontrol, hdrain]
      have htimed := timed_processControlRequests o input r
      rw [hprocess] at htimed
      rw [htakes]
      exact htimed.trans (timed_fail false after)
  | stopped hready hafter hstate => exact hmid hready hafter
  | @eventFailed ready mid handled hready hafter hstate hhandled =>
      have htimed := timed_handleReady o input.io input.modityOk ready mid
      rw [hhandled] at htimed
      exact ((hmid hready hafter).trans htimed).trans (timed_fail false handled)
  | @handled ready mid handled hready hafter hstate hhandled =>
      have htimed := timed_handleReady o input.io input.modityOk ready mid
      rw [hhandled] at htimed
      have hchecked := timed_checkShutdownProgress
        (handled.cleanupClosedConnections input.removeOk) input
      have hcleaned : Timed false handled (handled.cleanupClosedConnections input.removeOk) :=
        .kept id rfl rfl
      exact (((hmid hready hafter).trans htimed).trans hcleaned).trans hchecked

/-- Once the reactor drains or has stopped, it does not run again. -/
theorem left_iterate {r : SubReactor Q} (h : r.state = .draining ∨ r.state = .stopped)
    (o : NetworkOptions) (input : LoopInput Q) :
    (r.iterate o input).state = .draining ∨ (r.iterate o input).state = .stopped := by
  have hadvances := advances_iterate r o input
  obtain hstate | hstate := h
  · rw [hstate] at hadvances
    generalize (r.iterate o input).state = after at hadvances ⊢
    cases hadvances with
    | refl => exact .inl rfl
    | finish => exact .inr rfl
  · rw [hstate] at hadvances
    generalize (r.iterate o input).state = after at hadvances ⊢
    cases hadvances with
    | refl => exact .inr rfl

/-! ### The deadlines passed to a reactor -/

/-- After calls of `Stop` with the deadlines `passed`: the requested deadline is the earliest of
them, and a draining reactor has adopted it; but if the calls that found it draining have not all
been `untightened`, it has adopted a later one. -/
structure Tracked (passed : List TimePoint) (untightened : Prop) (r : SubReactor Q) : Prop where
  tidy : r.Tidy
  silent : r.stopRequested = false → passed = []
  least : r.stopRequested = true →
    IsLeast {deadline | deadline ∈ passed} r.requestedShutdownDeadline
  adopted : r.state = .draining → untightened →
    r.shutdownDeadline = r.requestedShutdownDeadline
  late : r.state = .draining → ¬ untightened →
    r.requestedShutdownDeadline < r.shutdownDeadline
  left : ¬ untightened → r.state = .draining ∨ r.state = .stopped

/-- What leaves the deadlines as they are, and does not make a reactor drain. -/
theorem Tracked.same {passed : List TimePoint} {untightened : Prop} {r after : SubReactor Q}
    (h : r.Tracked passed untightened) (htidy : after.Tidy)
    (hstate : after.state = .draining → r.state = .draining)
    (hleft : r.state = .draining ∨ r.state = .stopped →
      after.state = .draining ∨ after.state = .stopped)
    (hstop : after.stopRequested = r.stopRequested)
    (hrequested : after.requestedShutdownDeadline = r.requestedShutdownDeadline)
    (hdeadline : after.shutdownDeadline = r.shutdownDeadline) :
    after.Tracked passed untightened where
  tidy := htidy
  silent := by
    rw [hstop]
    exact h.silent
  least := by
    rw [hstop, hrequested]
    exact h.least
  adopted hdraining := by
    rw [hrequested, hdeadline]
    exact h.adopted (hstate hdraining)
  late hdraining := by
    rw [hrequested, hdeadline]
    exact h.late (hstate hdraining)
  left htightened := hleft (h.left htightened)

/-- An iteration adopts the requested deadline, or none. -/
theorem Tracked.iterate {passed : List TimePoint} {untightened : Prop} {r : SubReactor Q}
    (h : r.Tracked passed untightened) (o : NetworkOptions) (input : LoopInput Q) :
    (r.iterate o input).Tracked passed untightened := by
  by_cases hlive : r.state = .created ∨ r.state = .stopped
  · rw [iterate_of_idle hlive]
    exact h
  have htidy : (r.iterate o input).Tidy := h.tidy.step o (.iterate input)
  have hleft (hleft : r.state = .draining ∨ r.state = .stopped) := left_iterate hleft o input
  have hstop : (r.iterate o input).stopRequested = r.stopRequested := by
    have hcontrol := congrArg (fun control => control.2.1) (control_iterate hlive o input)
    refine hcontrol.trans ?_
    split
    · rfl
    · rfl
  cases timed_iterate hlive o input with
  | kept hstate hrequested hdeadline =>
      exact h.same htidy hstate hleft hstop hrequested hdeadline
  | adopted hrunning htakes hrequest hrequested hdeadline =>
      -- nobody has tightened the deadline of a running reactor
      have huntightened : untightened := by
        by_contra htightened
        obtain hdraining | hstopped := h.left htightened
        · rw [hrunning] at hdraining
          cases hdraining
        · rw [hrunning] at hstopped
          cases hstopped
      constructor
      · exact htidy
      · rw [hstop]
        exact h.silent
      · rw [hstop, hrequested]
        exact h.least
      · exact fun _ _ => hdeadline.trans hrequested.symm
      · exact fun _ htightened => absurd huntightened htightened
      · exact fun htightened => absurd huntightened htightened

theorem Tracked.start {passed : List TimePoint} {untightened : Prop} {r : SubReactor Q}
    (h : r.Tracked passed untightened) (addOk threadOk : Bool) :
    (r.start addOk threadOk).Tracked passed untightened := by
  have htidy : (r.start addOk threadOk).Tidy := h.tidy.step {} (.start addOk threadOk)
  have hpublished := h.tidy.published
  have houtcome := r.start_outcome addOk threadOk
  generalize r.start addOk threadOk = after at houtcome htidy ⊢
  cases houtcome with
  | refused hstarted => exact h
  | unregistered hcreated poller => exact h.same htidy id id rfl rfl rfl
  | running hcreated poller | threadless hcreated poller =>
      refine h.same htidy (fun hdraining => by cases hdraining) (fun hleft => ?_) rfl rfl rfl
      rw [← hpublished, hcreated] at hleft
      simp at hleft

theorem Tracked.enqueClient {passed : List TimePoint} {untightened : Prop} {r : SubReactor Q}
    (h : r.Tracked passed untightened) (fd : Int) :
    (r.enqueClient fd).Tracked passed untightened := by
  have htidy : (r.enqueClient fd).Tidy := h.tidy.step {} (.enqueClient fd)
  obtain ⟨fds, heq⟩ := r.enqueClient_eq fd
  rw [heq] at htidy ⊢
  exact h.same htidy id id rfl rfl rfl

/-- The requested deadline after a call of `Stop`. -/
theorem requestedShutdownDeadline_stop (r : SubReactor Q) (deadline : TimePoint) :
    (r.stop deadline).requestedShutdownDeadline =
      if r.stopRequested = true then
        min deadline r.requestedShutdownDeadline
      else
        deadline := by
  change (if !r.stopRequested || deadline < r.requestedShutdownDeadline then
    deadline else r.requestedShutdownDeadline) = _
  cases hstop : r.stopRequested with
  | false => rfl
  | true =>
      simp only [Bool.not_true, Bool.false_or, decide_eq_true_eq, if_true]
      split
      next hlt => exact (min_eq_left hlt.le).symm
      next hle => exact (min_eq_right (not_lt.mp hle)).symm

/-- The requested deadline stays the earliest of those passed. -/
theorem Tracked.least_stop {passed : List TimePoint} {untightened : Prop} {r : SubReactor Q}
    (h : r.Tracked passed untightened) (deadline : TimePoint) :
    IsLeast {d | d ∈ passed ++ [deadline]} (r.stop deadline).requestedShutdownDeadline := by
  have hset : {d | d ∈ passed ++ [deadline]} = insert deadline {d | d ∈ passed} := by
    ext d
    simp [or_comm]
  rw [requestedShutdownDeadline_stop, hset]
  split
  next hstop => exact (h.least hstop).insert deadline
  next hsilent =>
    rw [h.silent (Bool.eq_false_iff.mpr hsilent)]
    simp

/-- The deadline is no earlier than one of those passed already. -/
def NotEarlier (passed : List TimePoint) (deadline : TimePoint) : Prop :=
  ∃ earlier ∈ passed, earlier ≤ deadline

instance decidableNotEarlier (passed : List TimePoint) (deadline : TimePoint) :
    Decidable (NotEarlier passed deadline) :=
  inferInstanceAs (Decidable (∃ earlier ∈ passed, earlier ≤ deadline))

/-- The requested deadline of a draining reactor after a call of `Stop`. -/
theorem Tracked.requested_stop {passed : List TimePoint} {untightened : Prop} {r : SubReactor Q}
    (h : r.Tracked passed untightened) (hdraining : r.state = .draining) (deadline : TimePoint) :
    (NotEarlier passed deadline →
        (r.stop deadline).requestedShutdownDeadline = r.requestedShutdownDeadline) ∧
      (¬ NotEarlier passed deadline →
        (r.stop deadline).requestedShutdownDeadline < r.requestedShutdownDeadline) := by
  have hstop := h.tidy.draining hdraining
  have hleast := h.least hstop
  rw [requestedShutdownDeadline_stop, if_pos hstop]
  constructor
  · rintro ⟨earlier, hmem, hle⟩
    exact min_eq_right ((hleast.2 hmem).trans hle)
  · intro hearlier
    apply min_lt_of_left_lt
    by_contra hle
    exact hearlier ⟨_, hleast.1, not_lt.mp hle⟩

/-- `Stop` keeps the earliest deadline; a draining reactor has adopted another one already. -/
theorem Tracked.stop {passed : List TimePoint} {untightened : Prop} {r : SubReactor Q}
    (h : r.Tracked passed untightened) (deadline : TimePoint) :
    (r.stop deadline).Tracked (passed ++ [deadline])
      (untightened ∧ (r.state = .draining → NotEarlier passed deadline)) := by
  constructor
  · exact h.tidy.step {} (.stop deadline)
  · intro hstop
    cases hstop
  · intro _
    exact h.least_stop deadline
  · rintro hdraining ⟨huntightened, hnow⟩
    exact (h.adopted hdraining huntightened).trans
      ((h.requested_stop hdraining deadline).1 (hnow hdraining)).symm
  · intro hdraining hnot
    change _ < r.shutdownDeadline
    by_cases huntightened : untightened
    · have hearlier : ¬ NotEarlier passed deadline := fun hnow => hnot ⟨huntightened, fun _ => hnow⟩
      rw [h.adopted hdraining huntightened]
      exact (h.requested_stop hdraining deadline).2 hearlier
    · have hle : (r.stop deadline).requestedShutdownDeadline ≤ r.requestedShutdownDeadline := by
        rw [requestedShutdownDeadline_stop, if_pos (h.tidy.draining hdraining)]
        exact min_le_right ..
      exact hle.trans_lt (h.late hdraining huntightened)
  · intro hnot
    change r.state = .draining ∨ r.state = .stopped
    by_cases huntightened : untightened
    · by_contra hstate
      exact hnot ⟨huntightened, fun hdraining => absurd (.inl hdraining) hstate⟩
    · exact h.left huntightened

end SubReactor

namespace ControlRequests

variable {ι : Type*}

section Deadlines

variable [DecidableEq ι]

/-- The deadline that a step passes to `Stop`; a producer that is to notify first makes no call. -/
def deadlinesOf (s : ControlRequests ι Q) : Action ι Q → List TimePoint
  | .stop producer deadline => if s.notifying producer then [] else [deadline]
  | _ => []

/-- No call of `Stop` that finds the reactor draining passes an earlier deadline than all calls
before it have passed. -/
def Untightened (o : NetworkOptions) :
    List TimePoint → ControlRequests ι Q → List (Action ι Q) → Prop
  | _, _, [] => True
  | passed, s, action :: rest =>
      (s.reactor.state = .draining →
        ∀ deadline ∈ s.deadlinesOf action, SubReactor.NotEarlier passed deadline) ∧
      Untightened o (passed ++ s.deadlinesOf action) (s.step o action) rest

instance decidableUntightened (o : NetworkOptions) :
    ∀ passed (s : ControlRequests ι Q) actions, Decidable (Untightened o passed s actions)
  | _, _, [] => .isTrue trivial
  | passed, s, action :: rest =>
      have : Decidable (Untightened o (passed ++ s.deadlinesOf action) (s.step o action) rest) :=
        decidableUntightened o _ _ rest
      inferInstanceAs (Decidable (_ ∧ _))

end Deadlines

section Steps

variable [DecidableEq ι]

end Steps

end ControlRequests

end TinyKv
