import TinyKv.Net.StopDeadline
import TinyKv.Net.TcpServer

/-!
# The timeouts of the event loops

How long an event loop may wait is computed before each `Wait`. A loop that drains wakes up at
its deadline, or within a millisecond after it, and does not spin before it. A reactor that
does everything but waiting within a given time has therefore left its clients alone soon
after the deadline.
-/

namespace TinyKv

open Foundation

variable {Q : ExpirationQueue}

/-- `ToTimeoutMilliseconds`: the argument of `poll` and `epoll_wait`, a 32-bit integer. -/
def toTimeoutMilliseconds (timeout : Int) : Int :=
  if timeout < 0 then
    -1
  else if timeout > 2 ^ 31 - 1 then
    2 ^ 31 - 1
  else
    timeout

/-- The part of both `ComputeWaitTimeout` that looks at the deadline. The cast of the duration
cuts off what is left of a millisecond. -/
def drainTimeout (shutdownDeadline now : TimePoint) : Int :=
  if now ≥ shutdownDeadline then
    0
  else
    let remaining := (shutdownDeadline - now).tdiv 1000000
    let remaining := if remaining ≤ 0 then 1 else remaining
    min 100 remaining

/-- `SubReactor::ComputeWaitTimeout`, in milliseconds. -/
def SubReactor.computeWaitTimeout (r : SubReactor Q) (now : TimePoint) : Int :=
  if r.state = .running then
    500
  else if r.state ≠ .draining then
    0
  else
    drainTimeout r.shutdownDeadline now

/-- `TcpServer::ComputeWaitTimeout`, in milliseconds. -/
def TcpServer.computeWaitTimeout (s : TcpServer Q) (now : TimePoint) : Int :=
  if s.state = .running then
    500
  else if s.state ≠ .draining then
    0
  else if s.forceStopSent then
    10
  else
    drainTimeout s.shutdownDeadline now

/-- Before the deadline the loop waits, by a tenth of a second at most; it wakes up within a
millisecond of the deadline if nothing wakes it before. -/
theorem drainTimeout_spec (shutdownDeadline now : Int) :
    (shutdownDeadline ≤ now → drainTimeout shutdownDeadline now = 0) ∧
      (now < shutdownDeadline → 1 ≤ drainTimeout shutdownDeadline now ∧
        drainTimeout shutdownDeadline now ≤ 100 ∧
        now + drainTimeout shutdownDeadline now * 1000000 ≤ shutdownDeadline + 1000000) := by
  constructor
  · intro hlate
    rw [drainTimeout, if_pos hlate]
  · intro hearly
    have hcut : (shutdownDeadline - now).tdiv 1000000 * 1000000 ≤ shutdownDeadline - now := by
      rw [Int.tdiv_eq_ediv_of_nonneg (by omega)]
      omega
    rw [drainTimeout, if_neg (Int.not_le.mpr hearly)]
    simp only
    split
    · omega
    · omega

/-- The timeouts are passed to the system calls as they are. -/
theorem toTimeoutMilliseconds_eq {timeout : Int} (h : 0 ≤ timeout) (hle : timeout ≤ 500) :
    toTimeoutMilliseconds timeout = timeout := by
  rw [toTimeoutMilliseconds, if_neg (by omega), if_neg (by omega)]

namespace SubReactor

/-- How long `Wait` sleeps at most, in nanoseconds, when nothing wakes it. -/
def waitNs (r : SubReactor Q) (now : TimePoint) : Int :=
  toTimeoutMilliseconds (r.computeWaitTimeout now) * 1000000

theorem waitNs_draining {r : SubReactor Q} (h : r.state = .draining) (now : TimePoint) :
    r.waitNs now = drainTimeout r.shutdownDeadline now * 1000000 := by
  obtain ⟨hlate, hearly⟩ := drainTimeout_spec r.shutdownDeadline now
  have htimeout : r.computeWaitTimeout now = drainTimeout r.shutdownDeadline now := by
    rw [computeWaitTimeout, if_neg (by simp [h]), if_neg (by simp [h])]
  rw [waitNs, htimeout, toTimeoutMilliseconds_eq]
  · obtain h | h := Int.lt_or_le now r.shutdownDeadline
    · have := hearly h
      omega
    · rw [hlate h]
  · obtain h | h := Int.lt_or_le now r.shutdownDeadline
    · have := hearly h
      omega
    · rw [hlate h]
      decide

/-! ### Runs with a clock -/

/-- A sub reactor and the last reading of its clock. -/
structure Clocked (Q : ExpirationQueue) where
  reactor : SubReactor Q
  clock : TimePoint

namespace Clocked

/-- A step with the time at which the timeout of an iteration is computed; an iteration ends
with the reading of `CheckShutdownProgress`. -/
def step (o : NetworkOptions) (c : Clocked Q) (event : Action Q × TimePoint) : Clocked Q where
  reactor := c.reactor.step o event.1
  clock :=
    match event.1 with
    | .iterate input => input.now
    | .start _ _ | .enqueClient _ | .stop _ | .forceStop => c.clock

/-- The reactors with a clock under given options. -/
def machine (o : NetworkOptions) : Machine (Clocked Q) (Action Q × TimePoint) := ⟨step o⟩

/-- An iteration does everything but waiting within the time `slack`: up to the timeout, and
from the end of the wait to its clock reading. -/
def Punctual (slack : Int) (c : Clocked Q) (event : Action Q × TimePoint) : Prop :=
  ∀ input, event.1 = .iterate input →
    c.clock ≤ event.2 ∧ event.2 ≤ c.clock + slack ∧
      input.now ≤ event.2 + c.reactor.waitNs event.2 + slack

/-- While the reactor drains, its clock has not come to the deadline. -/
def Early (c : Clocked Q) : Prop :=
  c.reactor.state = .draining → c.clock < c.reactor.shutdownDeadline

end Clocked

/-- An iteration after which the reactor drains has read a clock before the deadline. -/
theorem now_lt_of_draining {r : SubReactor Q} {o : NetworkOptions} {input : LoopInput Q}
    (h : (r.iterate o input).state = .draining) :
    input.now < (r.iterate o input).shutdownDeadline := by
  by_cases hlive : r.state = .created ∨ r.state = .stopped
  · rw [iterate, if_pos hlive] at h
    rcases hlive with hstate | hstate <;> rw [hstate] at h <;> cases h
  have houtcome := iteration_outcome o input r
  rw [iterate, if_neg hlive] at h ⊢
  generalize r.iteration o input = result at houtcome h ⊢
  cases houtcome with
  | waitFailed hready => cases h
  | drainFailed hready hcontrol hdrain => cases h
  | controlFailed hready hcontrol hdrain hprocess => cases h
  | stopped hready hafter hstate =>
      simp only at h
      rw [hstate] at h
      cases h
  | eventFailed hready hafter hstate hhandled => cases h
  | @handled ready mid handled hready hafter hstate hhandled =>
      simp only at h ⊢
      generalize handled.cleanupClosedConnections input.removeOk = cleaned at h ⊢
      have hchecked := cleaned.checkShutdownProgress_outcome input
      generalize cleaned.checkShutdownProgress input = after at hchecked h ⊢
      cases hchecked with
      | serving hstate => exact absurd h hstate
      | drained hstate hempty => cases h
      | late hstate hclients hlate => cases h
      | waiting hstate hclients hearly => exact hearly

/-- A draining reactor keeps its deadline. -/
theorem deadline_of_draining {r : SubReactor Q} (h : r.state = .draining) (o : NetworkOptions)
    (input : LoopInput Q) : (r.iterate o input).shutdownDeadline = r.shutdownDeadline := by
  have htimed := timed_iterate (r := r) (by simp [h]) o input
  cases htimed with
  | kept hstate hrequested hdeadline => exact hdeadline
  | adopted hstate =>
      rw [h] at hstate
      cases hstate

/-- A draining reactor drains on or has stopped. -/
theorem draining_or_stopped {r : SubReactor Q} (h : r.state = .draining) (o : NetworkOptions)
    (input : LoopInput Q) :
    (r.iterate o input).state = .draining ∨ (r.iterate o input).state = .stopped := by
  have hadvances := advances_iterate r o input
  rw [h] at hadvances
  generalize (r.iterate o input).state = state at hadvances ⊢
  cases hadvances with
  | refl => exact .inl rfl
  | finish => exact .inr rfl

/-- A clock reading before the deadline, a wait and little else end soon after the deadline. -/
theorem now_le_of_wait {deadline clock start now slack timeout : Int}
    (hclock : clock < deadline) (hstart : clock ≤ start) (hsoon : start ≤ clock + slack)
    (hnow : now ≤ start + timeout * 1000000 + slack)
    (hwait : timeout = 0 ∨ start + timeout * 1000000 ≤ deadline + 1000000) :
    now ≤ deadline + 1000000 + 2 * slack := by
  omega

namespace Clocked

theorem early_step (o : NetworkOptions) {c : Clocked Q} (h : c.Early)
    (event : Action Q × TimePoint) : (c.step o event).Early := by
  obtain ⟨action, start⟩ := event
  cases action with
  | start addOk threadOk =>
      have houtcome := c.reactor.start_outcome addOk threadOk
      change (c.reactor.start addOk threadOk).state = .draining → _
      intro hdraining
      change c.clock < (c.reactor.start addOk threadOk).shutdownDeadline
      generalize c.reactor.start addOk threadOk = after at houtcome hdraining ⊢
      cases houtcome with
      | refused hcreated => exact h hdraining
      | unregistered hcreated poller => exact h hdraining
      | running hcreated poller => cases hdraining
      | threadless hcreated poller => cases hdraining
  | enqueClient fd =>
      change (c.reactor.enqueClient fd).state = .draining → _
      intro hdraining
      change c.clock < (c.reactor.enqueClient fd).shutdownDeadline
      unfold enqueClient at hdraining ⊢
      split at hdraining
      · rw [if_pos ‹_›]
        exact h hdraining
      · rw [if_neg ‹_›]
        split at hdraining
        · rw [if_pos ‹_›]
          exact h hdraining
        · rw [if_neg ‹_›]
          exact h hdraining
  | stop deadline => exact h
  | forceStop => exact h
  | iterate input => exact now_lt_of_draining

/-- In a run in which everything but waiting takes little time, an iteration of a draining
reactor ends little later than a millisecond after the deadline; and if it ends no earlier
than the deadline, the reactor has stopped. -/
theorem drain_ends_in_time (o : NetworkOptions) (backend : PollerBackend) (controlFd : Int)
    (store : Store Q) (clock slack : Int) (events : List (Action Q × TimePoint))
    (input : LoopInput Q) (start : TimePoint) :
    let c := (machine o).run ⟨SubReactor.created backend controlFd store, clock⟩ events
    c.Punctual slack (.iterate input, start) ∧ c.reactor.state = .draining →
      input.now ≤ c.reactor.shutdownDeadline + 1000000 + 2 * slack ∧
        (c.reactor.shutdownDeadline ≤ input.now → (c.reactor.iterate o input).state = .stopped) ∧
        (start < c.reactor.shutdownDeadline → 1000000 ≤ c.reactor.waitNs start) := by
  rintro c ⟨hpunctual, hdraining⟩
  have hearly : c.Early := by
    refine (machine o).run_invariant (I := Early) (fun _ h event _ => early_step o h event) ?_
    intro hcreated
    cases hcreated
  obtain ⟨hstart, hsoon, hnow⟩ := hpunctual input rfl
  have hclock := hearly hdraining
  have hwait := waitNs_draining hdraining start
  obtain ⟨hafter, hbefore⟩ := drainTimeout_spec c.reactor.shutdownDeadline start
  simp only at hstart hsoon hnow
  refine ⟨?_, ?_, ?_⟩
  · rw [hwait] at hnow
    apply now_le_of_wait hclock hstart hsoon hnow
    obtain hlt | hle := Int.lt_or_le start c.reactor.shutdownDeadline
    · exact .inr (hbefore hlt).2.2
    · exact .inl (hafter hle)
  · intro hlate
    obtain hstate | hstate := draining_or_stopped hdraining o input
    · have hlt := now_lt_of_draining hstate
      rw [deadline_of_draining hdraining] at hlt
      exact absurd hlate (Int.not_le.mpr hlt)
    · exact hstate
  · intro hlt
    have hsleeps := (hbefore hlt).1
    rw [hwait]
    omega

/-- A client whose response cannot be sent keeps the reactor from stopping for five
milliseconds. -/
def drainFor5 : List (Action sortedExpirations × TimePoint) :=
  [(.start true true, 0), (.enqueClient 7, 0), (.iterate (readPing [⟨3, { read := true }⟩]), 0),
    (.iterate (readPing [⟨7, { read := true }⟩]), 0), (.stop 5000000, 0),
    (.iterate (readPing [⟨3, { read := true }⟩]), 0)]

theorem drain_ends_in_time_for5 :
    let c := (machine {}).run ⟨SubReactor.created .epoll 3 Store.empty, 0⟩ drainFor5
    c.reactor.shutdownDeadline = 5000000 ∧
      (c.reactor.iterate {} (calmly [] .wouldBlock .wouldBlock 5000000)).state = .stopped := by
  intro c
  have hdeadline : c.reactor.shutdownDeadline = 5000000 := by decide +kernel
  have hdraining : c.reactor.state = .draining := by decide +kernel
  refine ⟨hdeadline, (drain_ends_in_time {} .epoll 3 Store.empty 0 0 drainFor5
    (calmly [] .wouldBlock .wouldBlock 5000000) 0 ⟨?_, hdraining⟩).2.1 (by rw [hdeadline]; rfl)⟩
  rintro input ⟨⟩
  decide +kernel

end Clocked

end SubReactor

end TinyKv
