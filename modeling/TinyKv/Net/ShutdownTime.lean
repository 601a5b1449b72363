import TinyKv.Net.RunReturns
import TinyKv.Net.WaitTimeout

/-!
# How long a graceful shutdown takes

Every thread computes a timeout before it calls `Wait`; it comes back when that has passed, or
when it is notified. When nothing but waiting takes long, the deadline of a shutdown holds for
all threads together: the sub reactors have left within a millisecond of it, and the main
reactor, which looks after them every ten milliseconds then, finds them all stopped. The times
are numbers without a bound: this is meant for timeouts up to 4611686018427 milliseconds, whose
deadlines do not wrap around the steady clock.
-/

namespace TinyKv

open Foundation

variable {Q : ExpirationQueue}

/-- When a thread has last come back from `Wait`, or has called it, and when the call times
out. -/
structure Pause where
  since : Int
  timeout : Option Int := none

/-- When the thread goes on at the latest: soon after the timeout, or soon with its `Wait`. -/
def Pause.latest (p : Pause) (slack : Int) : Int := p.timeout.getD p.since + slack

namespace SubReactor

/-- What a reactor still has to do at a time: a request to stop wakes it up, and a draining
reactor wakes up by itself. -/
def Due (slack : Int) (r : SubReactor Q) (pause : Pause) (requested now : Int) : Prop :=
  (r.state = .running → r.asked = true → now ≤ max pause.since requested + slack) ∧
    (r.state = .draining → now ≤ pause.latest slack)

instance decidableDue (slack : Int) (r : SubReactor Q) (pause : Pause) (requested now : Int) :
    Decidable (r.Due slack pause requested now) :=
  inferInstanceAs (Decidable (_ ∧ _))

instance decidableHeeds (input : LoopInput Q) (r : SubReactor Q) : Decidable (r.Heeds input) :=
  inferInstanceAs (Decidable (∀ ready ∈ input.ready, r.controlEventReceived ready = true))

/-- A reactor does not put off what it has been asked for, and wakes up for its deadline. -/
structure Paced (slack : Int) (r : SubReactor Q) (pause : Pause) (requested : Int) :
    Prop where
  reaching : r.state = .running → r.asked = true → pause.timeout = none →
    pause.since ≤ requested + slack
  waiting : r.state = .running → r.asked = true → pause.since ≤ requested + 2 * slack
  early : r.state = .draining → pause.timeout = none → pause.since < r.shutdownDeadline
  timely : r.state = .draining → ∀ timeout ∈ pause.timeout,
    timeout ≤ r.shutdownDeadline + 1000000 + slack

/-- A reactor that nobody has asked to stop does not drain. -/
theorem not_draining_of_not_asked {r : SubReactor Q} (htidy : r.Tidy) (hasked : r.asked = false) :
    r.state ≠ .draining := by
  intro hdraining
  simp [asked, htidy.draining hdraining] at hasked

/-- It has all the time. -/
theorem paced_of_not_asked {r : SubReactor Q} (htidy : r.Tidy) (hasked : r.asked = false)
    (slack : Int) (pause : Pause) (requested : Int) : r.Paced slack pause requested where
  reaching _ h := by
    rw [hasked] at h
    cases h
  waiting _ h := by
    rw [hasked] at h
    cases h
  early h := absurd h (not_draining_of_not_asked htidy hasked)
  timely h := absurd h (not_draining_of_not_asked htidy hasked)

/-- How long a paced reactor can go on. -/
theorem Paced.le_of_due {slack : Int} (hslack : 0 ≤ slack) {r : SubReactor Q} {pause : Pause}
    {requested now : Int} (h : r.Paced slack pause requested)
    (hdue : r.Due slack pause requested now) :
    (r.state = .running → r.asked = true → now ≤ requested + 3 * slack) ∧
      (r.state = .draining → now ≤ r.shutdownDeadline + 1000000 + 2 * slack) := by
  constructor
  · intro hrunning hasked
    have hnow := hdue.1 hrunning hasked
    have hsince := h.waiting hrunning hasked
    omega
  · intro hdraining
    have hnow := hdue.2 hdraining
    unfold Pause.latest at hnow
    cases htimeout : pause.timeout with
    | none =>
        have hsince := h.early hdraining htimeout
        rw [htimeout, Option.getD_none] at hnow
        omega
    | some timeout =>
        have htime := h.timely hdraining timeout htimeout
        rw [htimeout, Option.getD_some] at hnow
        omega

/-- The reactor calls `Wait`. -/
theorem Paced.wait {slack : Int} (hslack : 0 ≤ slack) {r : SubReactor Q} {pause : Pause}
    {requested now : Int} (h : r.Paced slack pause requested)
    (hnone : pause.timeout = none) (hdue : r.Due slack pause requested now) :
    r.Paced slack ⟨now, some (now + r.waitNs now)⟩ requested where
  reaching _ _ h := by cases h
  waiting hrunning hasked := by
    have hnow := hdue.1 hrunning hasked
    have hsince := h.reaching hrunning hasked hnone
    change now ≤ _
    omega
  early _ h := by cases h
  timely hdraining timeout htimeout := by
    have hnow := hdue.2 hdraining
    have hsince := h.early hdraining hnone
    rw [Pause.latest, hnone, Option.getD_none] at hnow
    cases htimeout
    obtain ⟨hlate, hearly⟩ := drainTimeout_spec r.shutdownDeadline now
    rw [waitNs_draining hdraining]
    obtain hlt | hle := Int.lt_or_le now r.shutdownDeadline
    · have hwakes := (hearly hlt).2.2
      omega
    · rw [hlate hle]
      omega

/-- An iteration ends. It can miss a request that came while it waited, but no other. -/
theorem paced_iterate {slack : Int} (hslack : 0 ≤ slack) {r : SubReactor Q} {pause : Pause}
    {requested : Int} {input : LoopInput Q} (hdue : r.Due slack pause requested input.now)
    (hheeds : r.state = .running → r.asked = true → requested < pause.since → r.Heeds input)
    (o : NetworkOptions) :
    (r.iterate o input).Paced slack ⟨input.now, none⟩ requested := by
  have hrequest : (r.iterate o input).state = .running → (r.iterate o input).asked = true →
      input.now ≤ requested + slack := by
    intro hrunning hasked
    rw [asked_iterate] at hasked
    have hbefore : r.state = .running := by
      have hadvances := advances_iterate r o input
      rw [hrunning] at hadvances
      generalize r.state = state at hadvances
      cases hadvances
      rfl
    have hnow := hdue.1 hbefore hasked
    obtain hlt | hle := Int.lt_or_le requested pause.since
    · have hleft := left_of_heeds hasked (by simp [hbefore]) (hheeds hbefore hasked hlt) o
      rw [hrunning] at hleft
      rcases hleft with hleft | hleft
      · cases hleft
      · cases hleft
    · exact Int.le_trans hnow (by omega)
  constructor
  · exact fun hrunning hasked _ => hrequest hrunning hasked
  · intro hrunning hasked
    exact Int.le_trans (hrequest hrunning hasked) (by omega)
  · exact fun hdraining _ => now_lt_of_draining hdraining
  · intro _ timeout htimeout
    cases htimeout

/-- The calls of the main reactor: the request that is new is made now. -/
theorem Paced.call {slack : Int} (hslack : 0 ≤ slack) {r after : SubReactor Q} {pause : Pause}
    {requested requested' : Int} (h : r.Paced slack pause requested)
    (hstate : after.state = r.state) (hdeadline : after.shutdownDeadline = r.shutdownDeadline)
    (hkept : r.asked = true → requested' = requested)
    (hnew : r.asked = false → pause.since ≤ requested') :
    after.Paced slack pause requested' := by
  have hsince : after.state = .running → pause.since ≤ requested' ∨
      r.state = .running ∧ r.asked = true ∧ requested' = requested := by
    intro hrunning
    rw [hstate] at hrunning
    cases hasked : r.asked with
    | false => exact .inl (hnew hasked)
    | true => exact .inr ⟨hrunning, rfl, hkept hasked⟩
  constructor
  · intro hrunning _ hnone
    obtain hle | ⟨hbefore, hasked, rfl⟩ := hsince hrunning
    · omega
    · exact h.reaching hbefore hasked hnone
  · intro hrunning _
    obtain hle | ⟨hbefore, hasked, rfl⟩ := hsince hrunning
    · omega
    · exact h.waiting hbefore hasked
  · intro hdraining
    rw [hdeadline]
    exact h.early (hstate ▸ hdraining)
  · intro hdraining
    rw [hdeadline]
    exact h.timely (hstate ▸ hdraining)

/-- The reactor knows of one deadline only. -/
structure Dated (deadline : Int) (r : SubReactor Q) : Prop where
  requested : r.stopRequested = true → r.requestedShutdownDeadline = deadline
  draining : r.state = .draining → r.shutdownDeadline = deadline

theorem dated_of_not_asked {r : SubReactor Q} (htidy : r.Tidy) (hasked : r.asked = false)
    (deadline : Int) : r.Dated deadline := by
  constructor
  · intro hstop
    simp [asked, hstop] at hasked
  · exact fun hdraining => absurd hdraining (not_draining_of_not_asked htidy hasked)

theorem Dated.iterate {deadline : Int} {r : SubReactor Q} (h : r.Dated deadline)
    (o : NetworkOptions) (input : LoopInput Q) : (r.iterate o input).Dated deadline := by
  by_cases hlive : r.state = .created ∨ r.state = .stopped
  · rw [iterate_of_idle hlive]
    exact h
  have hstop : (r.iterate o input).stopRequested = r.stopRequested := by
    have hcontrol := congrArg (fun control => control.2.1) (control_iterate hlive o input)
    refine hcontrol.trans ?_
    split
    · rfl
    · rfl
  cases timed_iterate hlive o input with
  | kept hstate hrequested hdeadline =>
      constructor
      · intro hafter
        rw [hrequested]
        exact h.requested (hstop ▸ hafter)
      · intro hafter
        rw [hdeadline]
        exact h.draining (hstate hafter)
  | adopted hstate htakes hbefore hrequested hdeadline =>
      constructor
      · intro _
        rw [hrequested]
        exact h.requested hbefore
      · intro _
        rw [hdeadline]
        exact h.requested hbefore

/-- The main reactor calls `Stop` with one deadline. -/
theorem Dated.stop {deadline : Int} {r : SubReactor Q} (h : r.Dated deadline) :
    (r.stop deadline).Dated deadline where
  requested _ := by
    simp only [SubReactor.stop]
    split
    · rfl
    · next hkept =>
      simp only [Bool.or_eq_true, not_or, Bool.not_eq_true', Bool.not_eq_false] at hkept
      exact h.requested hkept.1
  draining hdraining := h.draining hdraining

end SubReactor

namespace TcpServer

/-- How long `Wait` sleeps at most, in nanoseconds, when nothing wakes it. -/
def waitNs (s : TcpServer Q) (now : TimePoint) : Int :=
  toTimeoutMilliseconds (s.computeWaitTimeout now) * 1000000

/-- A draining server wakes up within a millisecond of the deadline, and every ten milliseconds
once it has sent `ForceStop`. -/
theorem wake_draining {s : TcpServer Q} (h : s.state = .draining) (now : Int) :
    now + s.waitNs now ≤ max (s.shutdownDeadline + 1000000) (now + 10000000) := by
  have hnot : s.state ≠ .running := by simp [h]
  rw [waitNs, computeWaitTimeout, if_neg hnot, if_neg (not_not.mpr h)]
  split
  · rw [toTimeoutMilliseconds_eq (by decide) (by decide)]
    omega
  · obtain ⟨hlate, hearly⟩ := drainTimeout_spec s.shutdownDeadline now
    obtain hlt | hle := Int.lt_or_le now s.shutdownDeadline
    · obtain ⟨hpos, htenth, hwakes⟩ := hearly hlt
      rw [toTimeoutMilliseconds_eq (by omega) (by omega)]
      omega
    · rw [hlate hle, toTimeoutMilliseconds_eq (by decide) (by decide)]
      omega

/-- The deadline is set when the shutdown begins. -/
theorem deadline_runStep (c : ServerSetup) (input : RunInput) (s : TcpServer Q) :
    (s.runStep c input).shutdownDeadline = s.shutdownDeadline ∧
        ((s.runStep c input).state = .draining → s.state = .draining) ∨
      s.state = .running ∧ (s.runStep c input).shutdownDeadline =
        input.now + c.shutdownOptions.gracefulTimeout * 1000000 := by
  have houtcome := runStep_outcome c input s
  generalize s.runStep c input = after at houtcome ⊢
  cases houtcome with
  | drained h hstate | removeFailed h hstate => exact .inr ⟨hstate, rfl⟩
  | served | sweeperFailed | finished | joined => exact .inl ⟨rfl, fun h => by cases h⟩
  | goes | throws | opened | refused | started | startFailed | stopped | unready | undealt | dealt
  | round | forced | forcedAll | rescued => exact .inl ⟨rfl, id⟩

/-- Before a shutdown nobody is asked to stop. -/
theorem not_asked_of_not_left {s : TcpServer Q} (h : s.Supervised) (hasked : s.AskedByMain)
    (hcaught : s.caught = false) (hstate : s.state = .created ∨ s.state = .running) :
    ∀ r ∈ s.subReactors, r.asked = false := by
  rcases hstate with hstate | hstate
  · intro r hmem
    by_contra hnot
    obtain ⟨call, hcall, -⟩ := hasked r hmem (Bool.not_eq_false _ ▸ hnot)
    cases h.orderly.2 with
    | starting _ _ _ hcalls =>
        rw [hcalls] at hcall
        cases hcall
    | running hrunning => exact absurd (hrunning.symm.trans hstate) (by decide)
    | stopping hdraining => exact absurd (hdraining.symm.trans hstate) (by decide)
    | draining hdraining => exact absurd (hdraining.symm.trans hstate) (by decide)
    | forcing hdraining => exact absurd (hdraining.symm.trans hstate) (by decide)
    | stopped hstopped => exact absurd (hstopped.symm.trans hstate) (by decide)
    | caught hcaught' => exact absurd (hcaught'.symm.trans hcaught) (by decide)
  · exact not_asked_of_running hasked h.orderly hstate hcaught

/-- In a shutdown that is through with its calls of `Stop`, all sub reactors know of it. -/
theorem Supervised.asked_of_draining {s : TcpServer Q} (h : s.Supervised)
    (hcaught : s.caught = false) (hstate : s.state = .draining)
    (hpoint : ∀ next ready, s.point ≠ .stopSubReactors next ready) :
    ∀ r ∈ s.subReactors, r.asked = true := by
  have hall {forced : List MainCall} (hcalls : s.Recorded s.subReactors.length forced) :
      ∀ r ∈ s.subReactors, r.asked = true := by
    intro r hmem
    obtain ⟨i, hget⟩ := List.getElem?_of_mem hmem
    have hlt := (List.getElem?_eq_some_iff.mp hget).1
    obtain ⟨clients, heq, -⟩ := hcalls
    refine h.asked i r (.inl ?_) hget
    rw [heq]
    exact List.mem_append_left _
      (List.mem_append_right _ (List.mem_map_of_mem (List.mem_range.mpr hlt)))
  cases h.orderly.2 with
  | starting hcreated => exact absurd (hcreated.symm.trans hstate) (by decide)
  | running hrunning => exact absurd (hrunning.symm.trans hstate) (by decide)
  | stopping _ hstopping => exact absurd hstopping (hpoint _ _)
  | draining _ _ hcalls => exact hall hcalls
  | forcing _ _ _ hcalls => exact hall hcalls
  | stopped hstopped => exact absurd (hstopped.symm.trans hstate) (by decide)
  | caught hcaught' => exact absurd (hcaught'.symm.trans hcaught) (by decide)

/-- A shutdown begins when all sub reactors have been started. -/
theorem Supervised.started_of_draining {s : TcpServer Q} (h : s.Supervised)
    (hcaught : s.caught = false) (hstate : s.state = .draining) :
    ∀ r ∈ s.subReactors, r.state ≠ .created := by
  refine (startedAt_of_launched ?_).mp (h.started hcaught)
  cases h.orderly.2 with
  | starting hcreated => exact absurd (hcreated.symm.trans hstate) (by decide)
  | running hrunning => exact absurd (hrunning.symm.trans hstate) (by decide)
  | stopping _ hpoint =>
      rw [hpoint]
      trivial
  | draining _ hpoint =>
      cases hp : s.point with
      | created | startSubReactors =>
          rw [hp] at hpoint
          cases hpoint
      | _ => trivial
  | forcing _ hpoint =>
      rw [hpoint]
      trivial
  | stopped hstopped => exact absurd (hstopped.symm.trans hstate) (by decide)
  | caught hcaught' => exact absurd (hcaught'.symm.trans hcaught) (by decide)

theorem not_asked_of_beginning {s : TcpServer Q} (h : s.Supervised) (hasked : s.AskedByMain)
    (hcaught : s.caught = false) (hstate : s.state = .draining) {ready : List ReadyEvent}
    (hpoint : s.point = .stopSubReactors 0 ready) : ∀ r ∈ s.subReactors, r.asked = false := by
  intro r hmem
  by_contra hnot
  obtain ⟨call, hcall, hstop⟩ := hasked r hmem (Bool.not_eq_false _ ▸ hnot)
  cases h.orderly.2 with
  | stopping _ hstopping _ _ hcalls =>
      rw [hpoint] at hstopping
      cases hstopping
      obtain ⟨clients, heq, hclients⟩ := hcalls
      rw [List.range_zero, List.map_nil, List.append_nil, List.append_nil] at heq
      rw [heq] at hcall
      rw [hclients call hcall] at hstop
      cases hstop
  | starting hcreated => exact absurd (hcreated.symm.trans hstate) (by decide)
  | running hrunning => exact absurd (hrunning.symm.trans hstate) (by decide)
  | draining _ hdraining =>
      rw [hpoint] at hdraining
      cases hdraining
  | forcing _ hforcing => exact absurd (hpoint.symm.trans hforcing) (by simp)
  | stopped hstopped => exact absurd (hstopped.symm.trans hstate) (by decide)
  | caught hcaught' => exact absurd (hcaught'.symm.trans hcaught) (by decide)

/-- The step that begins the shutdown asks nobody yet. -/
theorem not_asked_runStep {s : TcpServer Q} (h : s.Supervised) (hasked : s.AskedByMain)
    (hstate : s.state = .created ∨ s.state = .running) {c : ServerSetup} {input : RunInput}
    (hcaught : (s.runStep c input).caught = false) :
    ∀ r ∈ (s.runStep c input).subReactors, r.asked = false := by
  have hafter : (s.runStep c input).Supervised := h.step c (.run input)
  have hasked' : (s.runStep c input).AskedByMain := hasked.step c (.run input)
  have hmoves := (h.orderly.2.runStep c input).moves.resolve_left (by simp [hcaught])
  cases ran_runStep c input s with
  | refused _ hcaught' => exact absurd (hcaught'.symm.trans hcaught) (by decide)
  | threw _ hcaught' => exact absurd (hcaught'.symm.trans hcaught) (by decide)
  | turned _ _ hturn =>
      cases hnext : (s.runStep c input).state with
      | created => exact not_asked_of_not_left hafter hasked' hcaught (.inl hnext)
      | running => exact not_asked_of_not_left hafter hasked' hcaught (.inr hnext)
      | stopped =>
          rw [hnext] at hmoves
          rcases hstate with hstate | hstate
          · rw [hstate] at hmoves
            cases hmoves
          · rw [hstate] at hmoves
            cases hmoves
      | draining =>
          obtain ⟨ready, hpoint⟩ :
              ∃ ready, (s.runStep c input).point = .stopSubReactors 0 ready := by
            generalize (s.runStep c input).point = point at hturn ⊢
            generalize (s.runStep c input).state = state at hturn hnext
            cases hturn with
            | drain => exact ⟨_, rfl⟩
            | serve | finish | joined => cases hnext
            | _ => rcases hstate with hstate | hstate <;> exact absurd hnext (by simp [hstate])
          exact not_asked_of_beginning hafter hasked' hcaught hnext hpoint

/-- Outside the `catch` clause a step has not come from it. -/
theorem not_caught_of_runStep {s : TcpServer Q} {c : ServerSetup} {input : RunInput}
    (hcaught : (s.runStep c input).caught = false) :
    s.caught = false ∧ Turn c input s (s.runStep c input).point (s.runStep c input).state := by
  cases ran_runStep c input s with
  | refused _ hcaught' => exact absurd (hcaught'.symm.trans hcaught) (by decide)
  | threw _ hcaught' => exact absurd (hcaught'.symm.trans hcaught) (by decide)
  | turned hkept _ hturn => exact ⟨hkept.symm.trans hcaught, hturn⟩

/-- While the sub reactors are being started, nobody is asked to stop. -/
theorem Supervised.not_asked_of_starting {s : TcpServer Q} (h : s.Supervised)
    (hasked : s.AskedByMain) (hcaught : s.caught = false) {next : Nat}
    (hpoint : s.point = .startSubReactors next) : ∀ r ∈ s.subReactors, r.asked = false := by
  refine not_asked_of_not_left h hasked hcaught ?_
  cases h.orderly.2 with
  | starting hcreated => exact .inl hcreated
  | running hrunning => exact .inr hrunning
  | stopping _ hstopping => exact absurd (hpoint.symm.trans hstopping) (by simp)
  | draining _ hdraining =>
      rw [hpoint] at hdraining
      cases hdraining
  | forcing _ hforcing => exact absurd (hpoint.symm.trans hforcing) (by simp)
  | stopped _ hstopped =>
      rw [hpoint] at hstopped
      rcases hstopped with hstopped | hstopped
      · cases hstopped
      · cases hstopped
  | caught hcaught' => exact absurd (hcaught'.symm.trans hcaught) (by decide)

/-- What a step of the thread in `Run` does to a sub reactor that knows of the shutdown. -/
theorem RunEffect.dated {s after : TcpServer Q} (h : RunEffect s after)
    (hstarting : ∀ next, s.point = .startSubReactors next → ∀ r ∈ s.subReactors, r.asked = false)
    {j : Nat} {r' : SubReactor Q} (hget : after.subReactors[j]? = some r')
    (hasked : r'.asked = true) :
    ∃ r, s.subReactors[j]? = some r ∧ r'.state = r.state ∧
      r'.shutdownDeadline = r.shutdownDeadline ∧
      (r.Dated s.shutdownDeadline → r'.Dated s.shutdownDeadline) := by
  cases h with
  | quiet hreactors =>
      rw [hreactors] at hget
      exact ⟨r', hget, rfl, rfl, id⟩
  | start addOk threadOk hpoint hbefore hreactors =>
      rw [hreactors] at hget
      obtain ⟨rfl, rfl⟩ | ⟨-, hother⟩ := getElem?_set_cases hget
      · rw [asked_start, hstarting _ hpoint _ (List.mem_of_getElem? hbefore)] at hasked
        cases hasked
      · exact ⟨r', hother, rfl, rfl, id⟩
  | @enqueClient i r fd hbefore hreactors =>
      rw [hreactors] at hget
      obtain ⟨rfl, rfl⟩ | ⟨-, hother⟩ := getElem?_set_cases hget
      · obtain ⟨fds, heq⟩ := r.enqueClient_eq fd
        rw [heq]
        exact ⟨r, hbefore, rfl, rfl, fun h => ⟨h.requested, h.draining⟩⟩
      · exact ⟨r', hother, rfl, rfl, id⟩
  | summon hbefore hasks hreactors =>
      rw [hreactors] at hget
      obtain ⟨rfl, rfl⟩ | ⟨-, hother⟩ := getElem?_set_cases hget
      · rcases hasks with rfl | rfl
        · exact ⟨_, hbefore, rfl, rfl, SubReactor.Dated.stop⟩
        · exact ⟨_, hbefore, rfl, rfl, fun h => ⟨h.requested, h.draining⟩⟩
      · exact ⟨r', hother, rfl, rfl, id⟩

/-- An iteration of a sub reactor changes nothing else of the server. -/
theorem step_subReactor_eq (c : ServerSetup) (s : TcpServer Q) (i : Nat) (input : LoopInput Q) :
    ∃ reactors, s.step c (.subReactor i input) = { s with subReactors := reactors } ∧
      ∀ j after, reactors[j]? = some after →
        j ≠ i ∧ s.subReactors[j]? = some after ∨
          j = i ∧ ∃ r, s.subReactors[i]? = some r ∧
            after = r.iterate c.networkOptions input := by
  simp only [TcpServer.step]
  cases hget : s.subReactors[i]? with
  | none =>
      refine ⟨s.subReactors, rfl, fun j after hafter => .inl ⟨?_, hafter⟩⟩
      rintro rfl
      rw [hget] at hafter
      cases hafter
  | some r =>
      refine ⟨s.subReactors.set i (r.iterate c.networkOptions input), rfl, ?_⟩
      intro j after hafter
      obtain ⟨rfl, rfl⟩ | hother := getElem?_set_cases hafter
      · exact .inr ⟨rfl, r, rfl, rfl⟩
      · exact .inl hother

/-- The thread in `Run` is about to call `Wait`, or does so. -/
def waiting (s : TcpServer Q) : Bool :=
  match s.point with
  | .wait => true
  | _ => false

theorem point_of_waiting {s : TcpServer Q} (h : s.waiting = true) : s.point = .wait := by
  simp only [waiting] at h
  split at h
  · assumption
  · cases h

/-- A server with the clock of the last event, the pauses of its threads, and the time at which
it has asked each sub reactor to stop; for one it has not asked, the time of its last step. -/
structure Clocked (Q : ExpirationQueue) where
  server : TcpServer Q
  clock : Int
  main : Pause
  reactors : Nat → Pause
  requested : Nat → Int

namespace Clocked

/-- The steps of the server, and the calls of `Wait` with their reading of the clock. -/
inductive Event (Q : ExpirationQueue) where
  | step (action : Action Q)
  | wait (now : Int)
  | reactorWait (i : Nat) (now : Int)

/-- The time of an event. A call of `Stop` from outside takes none. -/
def time (t : Clocked Q) : Event Q → Int
  | .step (.run input) => input.now
  | .step .stop => t.clock
  | .step (.subReactor _ input) => input.now
  | .wait now => now
  | .reactorWait _ now => now

/-- One event. -/
def next (c : ServerSetup) (t : Clocked Q) (event : Event Q) : Clocked Q :=
  let t' := { t with clock := t.time event }
  match event with
  | .step (.run input) =>
      { t' with
        server := t.server.runStep c input
        main := if t.server.waiting then ⟨input.now, none⟩ else t.main
        requested := fun i =>
          if (t.server.subReactors[i]?).any (·.asked) then t.requested i else input.now }
  | .step .stop => { t' with server := t.server.step c .stop }
  | .step (.subReactor i input) =>
      { t' with
        server := t.server.step c (.subReactor i input)
        reactors := Function.update t.reactors i ⟨input.now, none⟩ }
  | .wait now => { t' with main := ⟨now, some (now + t.server.waitNs now)⟩ }
  | .reactorWait i now =>
      { t' with
        reactors := Function.update t.reactors i
          ⟨now, (t.server.subReactors[i]?).map fun r => now + r.waitNs now⟩ }

/-- The servers of a given setup, with a clock. -/
def machine (c : ServerSetup) : Machine (Clocked Q) (Event Q) := ⟨next c⟩

/-- A server that has been created at a time. -/
def created (c : ServerSetup) (store : Store Q) (clock : Int) : Clocked Q :=
  ⟨TcpServer.created c store, clock, ⟨clock, none⟩, fun _ => ⟨clock, none⟩, fun _ => clock⟩

/-- Every thread calls `Wait` before it comes back from it; and a `Wait` that a running sub
reactor calls after a request to stop returns with the wakeup channel readable. -/
def InTurn (t : Clocked Q) : Event Q → Prop
  | .step (.run _) => t.server.waiting = true → t.main.timeout.isSome = true
  | .step .stop => True
  | .step (.subReactor i input) => (t.reactors i).timeout.isSome = true ∧
      ∀ r ∈ t.server.subReactors[i]?, r.state = .running → r.asked = true →
        t.requested i < (t.reactors i).since → r.Heeds input
  | .wait _ => t.server.waiting = true ∧ t.main.timeout = none
  | .reactorWait i _ => (t.reactors i).timeout = none

/-- Time goes forward, and not past what a thread has to do: in a shutdown everything but
waiting takes a thread at most the time `slack`, up to its next `Wait`. -/
def Punctual (slack : Int) (t : Clocked Q) (event : Event Q) : Prop :=
  t.clock ≤ t.time event ∧ t.InTurn event ∧
    (t.server.state = .draining → t.time event ≤ t.main.latest slack) ∧
    ∀ i < t.server.subReactors.length, ∀ r ∈ t.server.subReactors[i]?,
      r.Due slack (t.reactors i) (t.requested i) (t.time event)

instance decidableInTurn (t : Clocked Q) : ∀ event, Decidable (t.InTurn event)
  | .step (.run _) =>
      inferInstanceAs (Decidable (t.server.waiting = true → t.main.timeout.isSome = true))
  | .step .stop => .isTrue trivial
  | .step (.subReactor i input) =>
      inferInstanceAs (Decidable ((t.reactors i).timeout.isSome = true ∧
        ∀ r ∈ t.server.subReactors[i]?, r.state = .running → r.asked = true →
          t.requested i < (t.reactors i).since → r.Heeds input))
  | .wait _ => inferInstanceAs (Decidable (t.server.waiting = true ∧ t.main.timeout = none))
  | .reactorWait i _ => inferInstanceAs (Decidable ((t.reactors i).timeout = none))

instance decidablePunctual (slack : Int) (t : Clocked Q) (event : Event Q) :
    Decidable (t.Punctual slack event) :=
  inferInstanceAs (Decidable (_ ∧ _ ∧ _ ∧ _))

/-- When the sub reactors have left at the latest. -/
def leaving (slack deadline : Int) : Int := deadline + 1000000 + 4 * slack

/-- Where the thread in `Run` is in a shutdown, and since when. A round that has begun after the
sub reactors have left finds all of them stopped. -/
def Schedule (slack deadline : Int) (main : Pause) : RunPoint → Prop
  | .stopSubReactors _ _ => main.since ≤ deadline
  | .wait => (main.timeout = none → main.since ≤ leaving slack deadline) ∧
      ∀ timeout ∈ main.timeout, timeout ≤ leaving slack deadline + 10000000 + slack
  | .checkShutdownProgress _ allSubReactorStopped =>
      main.since ≤ leaving slack deadline + 10000000 + 2 * slack ∧
        (leaving slack deadline < main.since → allSubReactorStopped = true)
  | .forceStopSubReactors _ => main.since ≤ leaving slack deadline
  | _ => main.since ≤ leaving slack deadline + 10000000 + 2 * slack

/-- The invariant of a run in which nothing but waiting takes long. -/
structure Paced (slack : Int) (t : Clocked Q) : Prop where
  asked : t.server.AskedByMain
  main : t.main.since ≤ t.clock
  reactors : ∀ i, (t.reactors i).since ≤ t.clock
  busy : t.server.waiting = false → t.main.timeout = none
  paced : ∀ (i : Nat) (r : SubReactor Q), t.server.subReactors[i]? = some r →
    r.Paced slack (t.reactors i) (t.requested i)
  dated : ∀ r ∈ t.server.subReactors, r.Dated t.server.shutdownDeadline
  prompt : t.server.state = .draining → ∀ (i : Nat) (r : SubReactor Q),
    t.server.subReactors[i]? = some r → r.asked = true →
      t.requested i ≤ t.server.shutdownDeadline + slack
  schedule : t.server.state = .draining →
    Schedule slack t.server.shutdownDeadline t.main t.server.point

section Step

variable {slack : Int} {t : Clocked Q}

/-- After the time to leave, a sub reactor that knows of the shutdown has stopped. -/
theorem Paced.le_leaving (hslack : 0 ≤ slack) (h : t.Paced slack)
    (hstate : t.server.state = .draining) {i : Nat} {r : SubReactor Q}
    (hget : t.server.subReactors[i]? = some r) (hasked : r.asked = true) {now : Int}
    (hdue : r.Due slack (t.reactors i) (t.requested i) now) (hcreated : r.state ≠ .created)
    (hstopped : r.state ≠ .stopped) : now ≤ leaving slack t.server.shutdownDeadline := by
  obtain ⟨hrunning, hdraining⟩ := (h.paced i r hget).le_of_due hslack hdue
  have hrequested := h.prompt hstate i r hget hasked
  unfold leaving
  cases hr : r.state with
  | created => exact absurd hr hcreated
  | stopped => exact absurd hr hstopped
  | running =>
      have hnow := hrunning hr hasked
      omega
  | draining =>
      have hnow := hdraining hr
      rw [(h.dated r (List.mem_of_getElem? hget)).draining hr] at hnow
      omega

/-- How long the main reactor can go on in a shutdown. -/
theorem Paced.latest_le (h : t.Paced slack) (hstate : t.server.state = .draining)
    (hslack : 0 ≤ slack) :
    t.main.latest slack ≤ leaving slack t.server.shutdownDeadline + 10000000 + 3 * slack := by
  have hschedule := h.schedule hstate
  have hbusy := h.busy
  unfold Pause.latest
  cases hpoint : t.server.point with
  | wait =>
      rw [hpoint] at hschedule
      cases htimeout : t.main.timeout with
      | none =>
          have hsince := hschedule.1 htimeout
          rw [Option.getD_none]
          omega
      | some timeout =>
          have htime := hschedule.2 timeout htimeout
          rw [Option.getD_some]
          omega
  | stopSubReactors next ready =>
      rw [hpoint] at hschedule
      rw [hbusy (by simp [waiting, hpoint]), Option.getD_none]
      simp only [Schedule, leaving] at hschedule ⊢
      omega
  | checkShutdownProgress next all =>
      rw [hpoint] at hschedule
      rw [hbusy (by simp [waiting, hpoint]), Option.getD_none]
      have hsince := hschedule.1
      omega
  | _ =>
      rw [hpoint] at hschedule
      rw [hbusy (by simp [waiting, hpoint]), Option.getD_none]
      simp only [Schedule] at hschedule
      omega

theorem Punctual.due {event : Event Q} (h : t.Punctual slack event) {i : Nat} {r : SubReactor Q}
    (hget : t.server.subReactors[i]? = some r) :
    r.Due slack (t.reactors i) (t.requested i) (t.time event) :=
  h.2.2.2 i (List.getElem?_eq_some_iff.mp hget).1 r hget

/-- The thread in `Run` calls `Wait`. -/
theorem Paced.wait (hslack : 0 ≤ slack) (h : t.Paced slack) {now : Int}
    (hpunctual : t.Punctual slack (.wait now)) (c : ServerSetup) :
    (t.next c (.wait now)).Paced slack where
  asked := h.asked
  main := le_rfl
  reactors i := Int.le_trans (h.reactors i) hpunctual.1
  busy hbusy := by
    obtain ⟨hwaiting, -⟩ := hpunctual.2.1
    change t.server.waiting = false at hbusy
    rw [hwaiting] at hbusy
    cases hbusy
  paced := h.paced
  dated := h.dated
  prompt := h.prompt
  schedule hstate := by
    change t.server.state = .draining at hstate
    obtain ⟨hwaiting, hnone⟩ := hpunctual.2.1
    have hnow : now ≤ t.main.latest slack := hpunctual.2.2.1 hstate
    have hschedule := h.schedule hstate
    simp only [waiting] at hwaiting
    simp only [next, time]
    cases hpoint : t.server.point with
    | wait =>
        rw [hpoint] at hschedule
        have hsince := hschedule.1 hnone
        have hwakes := wake_draining hstate now
        rw [Pause.latest, hnone, Option.getD_none] at hnow
        refine ⟨fun h => (by cases h), ?_⟩
        rintro timeout ⟨⟩
        simp only [leaving] at hsince ⊢
        omega
    | _ =>
        rw [hpoint] at hwaiting
        cases hwaiting

/-- A sub reactor calls `Wait`. -/
theorem Paced.reactorWait (hslack : 0 ≤ slack) (h : t.Paced slack) {i : Nat} {now : Int}
    (hpunctual : t.Punctual slack (.reactorWait i now)) (c : ServerSetup) :
    (t.next c (.reactorWait i now)).Paced slack where
  asked := h.asked
  main := Int.le_trans h.main hpunctual.1
  reactors j := by
    simp only [next, time, Function.update_apply]
    split
    · exact le_rfl
    · exact Int.le_trans (h.reactors j) hpunctual.1
  busy := h.busy
  paced j r hget := by
    change t.server.subReactors[j]? = some r at hget
    simp only [next, time, Function.update_apply]
    split
    · next heq =>
      subst heq
      rw [hget, Option.map_some]
      exact (h.paced j r hget).wait hslack hpunctual.2.1 (hpunctual.due hget)
    · exact h.paced j r hget
  dated := h.dated
  prompt := h.prompt
  schedule := h.schedule

/-- A sub reactor has an iteration. -/
theorem Paced.subReactor (hslack : 0 ≤ slack) (h : t.Paced slack) {i : Nat} {input : LoopInput Q}
    (hpunctual : t.Punctual slack (.step (.subReactor i input))) (c : ServerSetup) :
    (t.next c (.step (.subReactor i input))).Paced slack := by
  have hasked := h.asked.step c (.subReactor i input)
  obtain ⟨reactors, heq, hreactors⟩ := step_subReactor_eq c t.server i input
  simp only [next, time, heq] at hasked ⊢
  constructor
  · exact hasked
  · exact Int.le_trans h.main hpunctual.1
  · intro j
    simp only [Function.update_apply]
    split
    · exact le_rfl
    · exact Int.le_trans (h.reactors j) hpunctual.1
  · exact h.busy
  · intro j after hafter
    obtain ⟨hne, hget⟩ | ⟨rfl, r, hget, rfl⟩ := hreactors j after hafter
    · simp only [Function.update_apply, if_neg hne]
      exact h.paced j after hget
    · simp only [Function.update_apply, if_true]
      exact SubReactor.paced_iterate hslack (hpunctual.due hget) (hpunctual.2.1.2 r hget) _
  · intro after hmem
    obtain ⟨j, hafter⟩ := List.getElem?_of_mem hmem
    obtain ⟨-, hget⟩ | ⟨-, r, hget, rfl⟩ := hreactors j after hafter
    · exact h.dated after (List.mem_of_getElem? hget)
    · exact (h.dated r (List.mem_of_getElem? hget)).iterate _ _
  · intro hstate j after hafter hasked'
    obtain ⟨-, hget⟩ | ⟨rfl, r, hget, rfl⟩ := hreactors j after hafter
    · exact h.prompt hstate j after hget hasked'
    · rw [SubReactor.asked_iterate] at hasked'
      exact h.prompt hstate j r hget hasked'
  · exact h.schedule

/-- Where the thread in `Run` is after a step. -/
theorem Paced.schedule_run (hslack : 0 ≤ slack) (h : t.Paced slack)
    (hsupervised : t.server.Supervised) {c : ServerSetup} {input : RunInput}
    (hgraceful : 0 ≤ c.shutdownOptions.gracefulTimeout)
    (hpunctual : t.Punctual slack (.step (.run input)))
    (hcaught : (t.server.runStep c input).caught = false)
    (hafter : (t.server.runStep c input).state = .draining) :
    Schedule slack (t.server.runStep c input).shutdownDeadline
      (if t.server.waiting then ⟨input.now, none⟩ else t.main)
      (t.server.runStep c input).point := by
  obtain ⟨hbefore, hturn⟩ := not_caught_of_runStep hcaught
  have hclock : t.clock ≤ input.now := hpunctual.1
  have hsince := Int.le_trans h.main hclock
  have hdeadline := deadline_runStep c input t.server
  generalize (t.server.runStep c input).point = point at hturn ⊢
  generalize (t.server.runStep c input).state = state at hturn hdeadline hafter
  generalize (t.server.runStep c input).shutdownDeadline = deadline at hdeadline ⊢
  by_cases hstate : t.server.state = .draining
  · obtain ⟨rfl, -⟩ | ⟨hrunning, -⟩ := hdeadline
    · have hschedule := h.schedule hstate
      by_cases hwaiting : t.server.waiting = true
      · rw [if_pos hwaiting]
        have hpoint := point_of_waiting hwaiting
        cases hturn with
        | look =>
            rw [hpoint] at hschedule
            obtain ⟨timeout, htimeout⟩ := Option.isSome_iff_exists.mp (hpunctual.2.1 hwaiting)
            have htime := hschedule.2 timeout htimeout
            have hnow := hpunctual.2.2.1 hstate
            rw [Pause.latest, htimeout, Option.getD_some] at hnow
            change input.now ≤ _
            exact Int.le_trans hnow (by omega)
        | drain _ hrunning =>
            rw [hstate] at hrunning
            cases hrunning
        | _ hother => exact absurd (hpoint.symm.trans hother) (by simp)
      · rw [if_neg hwaiting]
        rw [Bool.not_eq_true] at hwaiting
        have hnone := h.busy hwaiting
        cases hturn with
        | look hpoint => simp [waiting, hpoint] at hwaiting
        | drain _ hrunning =>
            rw [hstate] at hrunning
            cases hrunning
        | opened hpoint | started hpoint | checkNext hpoint | checked hpoint | accept hpoint
          | skip hpoint | acceptNext hpoint | acceptAgain hpoint | accepted hpoint | rescue hpoint
          | rescued hpoint | joining hpoint | returned hpoint =>
            rw [hpoint] at hschedule
            exact hschedule
        | serve | finish | joined => cases hafter
        | serving _ hserving => exact absurd hafter hserving
        | stopNext hpoint _ =>
            rw [hpoint] at hschedule
            exact hschedule
        | stopped hpoint _ =>
            rw [hpoint] at hschedule
            simp only [Schedule, leaving] at hschedule ⊢
            omega
        | handled hpoint =>
            rw [hpoint] at hschedule
            exact ⟨hschedule, fun _ => rfl⟩
        | forceNext hpoint _ =>
            rw [hpoint] at hschedule
            exact hschedule
        | forced hpoint =>
            rw [hpoint] at hschedule
            refine ⟨fun _ => hschedule, fun timeout htimeout => ?_⟩
            rw [hnone] at htimeout
            cases htimeout
        | patient hpoint _ =>
            rw [hpoint] at hschedule
            refine ⟨fun _ => ?_, fun timeout htimeout => ?_⟩
            · by_contra hlate
              exact absurd (hschedule.2 (Int.not_le.mp hlate)) (by decide)
            · rw [hnone] at htimeout
              cases htimeout
        | force hpoint _ =>
            rw [hpoint] at hschedule
            refine Int.not_lt.mp fun hlate => ?_
            exact absurd (hschedule.2 hlate) (by decide)
        | @probe next all r hpoint _ hget =>
            rw [hpoint] at hschedule
            refine ⟨hschedule.1, fun hlate => ?_⟩
            have hmem := List.mem_of_getElem? hget
            have hasked := hsupervised.asked_of_draining hbefore hstate (by simp [hpoint]) r hmem
            have hcreated := hsupervised.started_of_draining hbefore hstate r hmem
            have hstopped : r.state = .stopped := by
              by_contra hnot
              have hleft := h.le_leaving hslack hstate hget hasked (hpunctual.due hget)
                hcreated hnot
              exact absurd (Int.le_trans hsince hleft) (Int.not_le.mpr hlate)
            have hpublished := ((hsupervised.orderly.1 r hmem).published).trans hstopped
            rw [hschedule.2 hlate, hpublished]
            rfl
    · rw [hstate] at hrunning
      cases hrunning
  · obtain ⟨-, hkept⟩ | ⟨hrunning, heq⟩ := hdeadline
    · exact absurd (hkept hafter) hstate
    · have hlater : input.now ≤ deadline := by
        rw [heq]
        exact Int.le_add_of_nonneg_right (Int.mul_nonneg hgraceful (by decide))
      have hnow : (if t.server.waiting then ⟨input.now, none⟩ else t.main).since ≤ deadline := by
        split
        · exact hlater
        · exact Int.le_trans hsince hlater
      cases hturn with
      | drain => exact hnow
      | serve | finish | joined => cases hafter
      | _ => exact absurd hafter (by simp [hrunning])

/-- The thread in `Run` has a step. -/
theorem Paced.run (hslack : 0 ≤ slack) (h : t.Paced slack) (hsupervised : t.server.Supervised)
    {c : ServerSetup} {input : RunInput} (hgraceful : 0 ≤ c.shutdownOptions.gracefulTimeout)
    (hpunctual : t.Punctual slack (.step (.run input)))
    (hcaught : (t.server.runStep c input).caught = false) :
    (t.next c (.step (.run input))).Paced slack := by
  obtain ⟨hbefore, hturn⟩ := not_caught_of_runStep hcaught
  have hclock : t.clock ≤ input.now := hpunctual.1
  have horderly := (hsupervised.step c (.run input)).orderly.1
  have hcarried {j : Nat} {r' : SubReactor Q}
      (hget : (t.server.runStep c input).subReactors[j]? = some r') (hasked : r'.asked = true) :=
    (runEffect_runStep c input t.server).dated
      (fun next hpoint => hsupervised.not_asked_of_starting h.asked hbefore hpoint) hget hasked
  have hlater {r' : SubReactor Q} (hmem : r' ∈ (t.server.runStep c input).subReactors)
      (hasked : r'.asked = true) :
      (t.server.runStep c input).shutdownDeadline = t.server.shutdownDeadline ∧
        ((t.server.runStep c input).state = .draining → t.server.state = .draining) := by
    obtain hsame | ⟨hrunning, -⟩ := deadline_runStep c input t.server
    · exact hsame
    · rw [not_asked_runStep hsupervised h.asked (.inr hrunning) hcaught r' hmem] at hasked
      cases hasked
  simp only [next, time]
  constructor
  · exact h.asked.step c (.run input)
  · simp only
    split
    · exact le_rfl
    · exact Int.le_trans h.main hclock
  · exact fun i => Int.le_trans (h.reactors i) hclock
  · simp only
    intro hbusy
    split
    · rfl
    · next hwaiting => exact h.busy (Bool.not_eq_true _ ▸ hwaiting)
  · intro j r' hget
    cases hasked : r'.asked with
    | false =>
        exact SubReactor.paced_of_not_asked (horderly r' (List.mem_of_getElem? hget)) hasked _ _ _
    | true =>
        obtain ⟨r, hr, hstate, hsame, -⟩ := hcarried hget hasked
        refine (h.paced j r hr).call hslack hstate hsame ?_ ?_
        · intro hknown
          simp [hr, hknown]
        · intro hunknown
          simp only [hr, Option.any_some, hunknown, Bool.false_eq_true, if_false]
          exact Int.le_trans (h.reactors j) hclock
  · intro r' hmem
    cases hasked : r'.asked with
    | false => exact SubReactor.dated_of_not_asked (horderly r' hmem) hasked _
    | true =>
        obtain ⟨j, hget⟩ := List.getElem?_of_mem hmem
        obtain ⟨r, hr, -, -, hdated⟩ := hcarried hget hasked
        rw [(hlater hmem hasked).1]
        exact hdated (h.dated r (List.mem_of_getElem? hr))
  · intro hstate j r' hget hasked
    obtain ⟨r, hr, -⟩ := hcarried hget hasked
    obtain ⟨hsame, hkept⟩ := hlater (List.mem_of_getElem? hget) hasked
    rw [hsame]
    cases hknown : r.asked with
    | true =>
        simp only [hr, Option.any_some, hknown, if_true]
        exact h.prompt (hkept hstate) j r hr hknown
    | false =>
        -- the call of `Stop` has come right after the loop of `BeginGracefulShutdown` began
        obtain ⟨next, ready, hpoint⟩ :
            ∃ next ready, t.server.point = .stopSubReactors next ready := by
          by_contra hother
          rw [hsupervised.asked_of_draining hbefore (hkept hstate)
            (fun next ready hpoint => hother ⟨next, ready, hpoint⟩) r
            (List.mem_of_getElem? hr)] at hknown
          cases hknown
        have hsince := h.schedule (hkept hstate)
        have hnow := hpunctual.2.2.1 (hkept hstate)
        rw [hpoint] at hsince
        rw [Pause.latest, h.busy (by simp [waiting, hpoint]), Option.getD_none] at hnow
        simp only [hr, Option.any_some, hknown, Bool.false_eq_true, if_false]
        exact Int.le_trans hnow (Int.add_le_add_right hsince slack)
  · exact h.schedule_run hslack hsupervised hgraceful hpunctual hcaught

/-- Every event keeps the invariant, up to an exception. -/
theorem Paced.next (hslack : 0 ≤ slack) {c : ServerSetup}
    (hgraceful : 0 ≤ c.shutdownOptions.gracefulTimeout) {event : Event Q}
    (h : t.server.Supervised ∧ (t.server.caught = false → t.Paced slack))
    (hpunctual : t.Punctual slack event) :
    (t.next c event).server.Supervised ∧
      ((t.next c event).server.caught = false → (t.next c event).Paced slack) := by
  obtain ⟨hsupervised, hpaced⟩ := h
  cases event with
  | wait now => exact ⟨hsupervised, fun hcaught => (hpaced hcaught).wait hslack hpunctual c⟩
  | reactorWait i now =>
      exact ⟨hsupervised, fun hcaught => (hpaced hcaught).reactorWait hslack hpunctual c⟩
  | step action =>
      cases action with
      | run input =>
          refine ⟨hsupervised.step c (.run input), fun hcaught => ?_⟩
          have hbefore := (not_caught_of_runStep hcaught).1
          exact (hpaced hbefore).run hslack hsupervised hgraceful hpunctual hcaught
      | stop =>
          refine ⟨hsupervised.step c .stop, fun hcaught => ?_⟩
          have h := hpaced hcaught
          exact ⟨h.asked.step c .stop, h.main, h.reactors, h.busy, h.paced, h.dated, h.prompt,
            h.schedule⟩
      | subReactor i input =>
          refine ⟨hsupervised.step c (.subReactor i input), fun hcaught => ?_⟩
          obtain ⟨reactors, heq, -⟩ := step_subReactor_eq c t.server i input
          change (t.server.step c (.subReactor i input)).caught = false at hcaught
          rw [heq] at hcaught
          exact (hpaced hcaught).subReactor hslack hpunctual c

end Step

/-- The runs of a server in which nothing but waiting takes long. -/
theorem paced_run (c : ServerSetup) (hgraceful : 0 ≤ c.shutdownOptions.gracefulTimeout)
    (store : Store Q) (clock : Int) {slack : Int} (hslack : 0 ≤ slack) {events : List (Event Q)}
    (hpunctual : (machine c).Meets (Punctual slack) (created c store clock) events) :
    let t := (machine c).run (created c store clock) events
    t.server.Supervised ∧ (t.server.caught = false → t.Paced slack) := by
  refine (machine c).run_invariant_of_meets
    (I := fun t => t.server.Supervised ∧ (t.server.caught = false → t.Paced slack))
    (fun t event h hevent => Paced.next hslack hgraceful h hevent) ?_ hpunctual
  have hsupervised := supervised_created c store
  refine ⟨hsupervised, fun _ => ?_⟩
  have hunasked : ∀ r ∈ (TcpServer.created c store).subReactors, r.asked = false := by
    intro r hmem
    obtain ⟨i, -, rfl⟩ := List.mem_map.mp hmem
    rfl
  constructor
  · intro r hmem hasked
    rw [hunasked r hmem] at hasked
    cases hasked
  · exact le_rfl
  · exact fun _ => le_rfl
  · exact fun _ => rfl
  · intro i r hget
    have hmem := List.mem_of_getElem? hget
    exact SubReactor.paced_of_not_asked (hsupervised.orderly.1 r hmem) (hunasked r hmem) _ _ _
  · intro r hmem
    exact SubReactor.dated_of_not_asked (hsupervised.orderly.1 r hmem) (hunasked r hmem) _
  · exact fun hdraining => by cases hdraining
  · exact fun hdraining => by cases hdraining

/-- The deadline of a shutdown that has begun stays. -/
theorem deadline_next {t : Clocked Q} (h : t.server.Supervised) (hleft : t.server.Left)
    (c : ServerSetup) (event : Event Q) :
    (t.next c event).server.Supervised ∧ (t.next c event).server.Left ∧
      (t.next c event).server.shutdownDeadline = t.server.shutdownDeadline := by
  have hstep (action : Action Q) := ((h.orderly.2.step h.orderly.1 c action).left hleft).1
  cases event with
  | wait now => exact ⟨h, hleft, rfl⟩
  | reactorWait i now => exact ⟨h, hleft, rfl⟩
  | step action =>
      cases action with
      | run input =>
          refine ⟨h.step c (.run input), hstep (.run input), ?_⟩
          obtain ⟨hsame, -⟩ | ⟨hrunning, -⟩ := deadline_runStep c input t.server
          · exact hsame
          · exact absurd hleft (not_left hrunning (by decide) (by decide))
      | stop => exact ⟨h.step c .stop, hstep .stop, rfl⟩
      | subReactor i input =>
          refine ⟨h.step c (.subReactor i input), hstep (.subReactor i input), ?_⟩
          obtain ⟨reactors, heq, -⟩ := step_subReactor_eq c t.server i input
          change (t.server.step c (.subReactor i input)).shutdownDeadline = _
          rw [heq]

/-- The deadline counts from the step that has begun the shutdown. -/
theorem deadline_run {t : Clocked Q} (h : t.server.Supervised)
    (hrunning : t.server.state = .running) {c : ServerSetup} {input : RunInput}
    (hbegins : (t.server.runStep c input).state = .draining) (later : List (Event Q)) :
    ((machine c).run (t.next c (.step (.run input))) later).server.shutdownDeadline =
      input.now + c.shutdownOptions.gracefulTimeout * 1000000 := by
  let after := (machine c).run (t.next c (.step (.run input))) later
  have hall : after.server.Supervised ∧ after.server.Left ∧
      after.server.shutdownDeadline = (t.server.runStep c input).shutdownDeadline := by
    apply (machine c).run_invariant (I := fun after : Clocked Q =>
      after.server.Supervised ∧ after.server.Left ∧
        after.server.shutdownDeadline = (t.server.runStep c input).shutdownDeadline)
    · rintro after ⟨hsupervised, hleft, hsame⟩ event -
      obtain ⟨hnext, hstays, hkept⟩ := deadline_next hsupervised hleft c event
      exact ⟨hnext, hstays, hkept.trans hsame⟩
    · exact ⟨h.step c (.run input), .inl hbegins, rfl⟩
  obtain ⟨-, hkept⟩ | ⟨-, heq⟩ := deadline_runStep c input t.server
  · rw [hkept hbegins] at hrunning
    cases hrunning
  · exact hall.2.2.trans heq

end Clocked

/-- When nothing but waiting takes longer than `slack`, all threads together need eleven
milliseconds, and seven times the slack, more than the timeout of the shutdown until the server
has stopped; the sub reactors have stopped ten milliseconds earlier. -/
theorem shutdown_in_time (c : ServerSetup) (hgraceful : 0 ≤ c.shutdownOptions.gracefulTimeout)
    (store : Store Q) (clock : Int) {slack : Int} (hslack : 0 ≤ slack)
    (before later : List (Clocked.Event Q)) (input : RunInput) (event : Clocked.Event Q)
    (hpunctual : (Clocked.machine c).Meets (Clocked.Punctual slack) (.created c store clock)
      (before ++ .step (.run input) :: later ++ [event]))
    (hrunning : ((Clocked.machine c).run (.created c store clock) before).server.state = .running)
    (hbegins : ((Clocked.machine c).run (.created c store clock)
      (before ++ [.step (.run input)])).server.state = .draining) :
    let t := (Clocked.machine c).run (.created c store clock)
      (before ++ .step (.run input) :: later)
    t.server.state = .draining → t.server.caught = false →
      t.time event ≤
        input.now + (c.shutdownOptions.gracefulTimeout + 11) * 1000000 + 7 * slack ∧
      ∀ r ∈ t.server.subReactors, r.asked = true → r.state ≠ .stopped →
        t.time event ≤
          input.now + (c.shutdownOptions.gracefulTimeout + 1) * 1000000 + 4 * slack := by
  intro t hstate hcaught
  rw [Machine.meets_append] at hpunctual
  obtain ⟨hmeets, hevent, -⟩ := hpunctual
  obtain ⟨hsupervised, hpaced⟩ := Clocked.paced_run c hgraceful store clock hslack hmeets
  have h := hpaced hcaught
  have hdeadline : t.server.shutdownDeadline =
      input.now + c.shutdownOptions.gracefulTimeout * 1000000 := by
    have hearlier := (Clocked.paced_run c hgraceful store clock hslack
      (hmeets.before (List.prefix_append ..))).1
    rw [Machine.run_append] at hbegins
    simp only [t, Machine.run_append]
    exact Clocked.deadline_run hearlier hrunning hbegins later
  constructor
  · have hnow := hevent.2.2.1 hstate
    have hlatest := h.latest_le hstate hslack
    rw [hdeadline, Clocked.leaving] at hlatest
    exact Int.le_trans hnow (Int.le_trans hlatest (by omega))
  · intro r hmem hasked hstopped
    obtain ⟨i, hget⟩ := List.getElem?_of_mem hmem
    have hcreated := hsupervised.started_of_draining hcaught hstate r hmem
    have hnow := h.le_leaving hslack hstate hget hasked (hevent.due hget) hcreated hstopped
    rw [hdeadline, Clocked.leaving] at hnow
    exact Int.le_trans hnow (by omega)

/-- The sub reactor waits, and comes back at the same time. -/
def reactorTurn (ready : List ReadyEvent) (recv : RecvResult) (now : TimePoint) :
    List (Clocked.Event sortedExpirations) :=
  [.reactorWait 0 now, .step (.subReactor 0 (SubReactor.calmly ready recv .wouldBlock now))]

/-- The server accepts the client with descriptor 7, which sends a PING and receives nothing;
then `Stop` is called. -/
def untilStop : List (Clocked.Event sortedExpirations) :=
  List.replicate 3 (.step (.run (idly [] .wouldBlock 0))) ++ [.wait 0] ++
    List.replicate 4 (.step (.run (idly [⟨4, { read := true }⟩] .wouldBlock 0))) ++
    [.step (.run (idly [] (.client 7 true) 0))] ++
    List.replicate 3 (.step (.run (idly [] .wouldBlock 0))) ++ [.wait 0] ++
    reactorTurn [⟨3, { read := true }⟩] .wouldBlock 0 ++
    reactorTurn [⟨7, { read := true }⟩] (.bytes (FrameCodec.frameOf (ascii "PING"))) 0 ++
    [.step .stop]

/-- Both threads learn of the shutdown and wait for its deadline. -/
def untilDeadline : List (Clocked.Event sortedExpirations) :=
  List.replicate 6 (.step (.run (idly [] .wouldBlock 1000))) ++ [.wait 1000] ++
    reactorTurn [⟨3, { read := true }⟩] .wouldBlock 1000 ++ [.reactorWait 0 1000]

/-- A server that waits 50 milliseconds for its clients. -/
def impatient : ServerSetup := { oneSubReactor with shutdownOptions := { gracefulTimeout := 50 } }

/-- The response to a slow client is still pending at the deadline: the sub reactor closes it. -/
theorem shutdown_in_time_slow_client :
    let t := (Clocked.machine impatient).run (.created impatient Store.empty 0)
      (untilStop ++ .step (.run (idly [] .wouldBlock 1000)) :: untilDeadline)
    let event : Clocked.Event sortedExpirations :=
      .step (.subReactor 0 (SubReactor.calmly [] .wouldBlock .wouldBlock 50001000))
    let after := t.next impatient event
    (after.server.subReactors.map fun r => (r.state, r.departed.map (·.trace.causes))) =
        [(.stopped, [[.deadline]])] ∧
      t.time event ≤ 1000 + (50 + 11) * 1000000 + 7 * 500 ∧
      t.time event ≤ 1000 + (50 + 1) * 1000000 + 4 * 500 := by
  intro t event after
  obtain ⟨hstate, hcaught, r, hmem, hasked, hdraining⟩ : t.server.state = .draining ∧
      t.server.caught = false ∧ ∃ r ∈ t.server.subReactors, r.asked = true ∧
        r.state ≠ .stopped := by
    decide +kernel
  have hslack : (0 : Int) ≤ 500 := by decide
  obtain ⟨hall, hreactor⟩ := shutdown_in_time impatient (by decide) Store.empty 0 hslack
    untilStop untilDeadline (idly [] .wouldBlock 1000) event (by decide +kernel)
    (by decide +kernel) (by decide +kernel) hstate hcaught
  exact ⟨by decide +kernel, hall, hreactor r hmem hasked hdraining⟩

end TcpServer

end TinyKv
