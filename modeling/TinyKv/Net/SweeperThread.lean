import TinyKv.Foundation.Liveness

/-!
# The sweeper thread

`StartSweeperThread` and `StopSweeperThread` run on the thread of the server, `SweeperLoop` on
a thread of its own. They share `m_sweeperMutex`, the flag `m_sweeperRunning` and a condition
variable. Every acquisition and release of the mutex is a step, so that the steps of the two
threads interleave in any order, and a wait may end by a notification, by its timeout, or for
no reason at all.
-/

namespace TinyKv

open Foundation

/-- Where the thread of the server is in `StartSweeperThread` or `StopSweeperThread`. -/
inductive SweeperCall where
  | between
  | startLock
  | startLocked
  | startThrow
  | startUnlock
  | startCreate
  | startAssign
  | failLock
  | failLocked
  | failUnlock
  | stopLock
  | stopLocked
  | stopUnlock
  | stopNotify
  | stopJoin
deriving DecidableEq

/-- Where the sweeper is in `SweeperLoop`. It takes the mutex at first, after each wait, which
may have timed out, and after each pass. -/
inductive SweeperPoint where
  | absent
  | acquiring (timedOut : Bool)
  | testing (timedOut : Bool)
  | waiting (notified : Bool)
  | unlocking
  | sweeping
  | swept (hasMoreExpired : Bool)
  | leaving
  | finished
deriving DecidableEq

/-- Who can hold the mutex. -/
inductive SweeperParty where
  | server
  | sweeper
deriving DecidableEq

/-- The members of `TcpServer` that the two threads share, and where the threads are.
`aborted` tells that a joinable `std::thread` was assigned to. -/
structure SweeperThread where
  interval : Int
  mutex : Option SweeperParty := none
  running : Bool := false
  joinable : Bool := false
  stopRequested : Bool := false
  call : SweeperCall := .between
  point : SweeperPoint := .absent
  aborted : Bool := false

namespace SweeperThread

/-- What can happen next: a call of one of the two functions, `Stop`, a step of the thread of
the server, where the creation of a thread may fail, a step of the sweeper, where a wait may
go on or end, and a sweep may leave expired entries. -/
inductive Event where
  | start
  | stop
  | requestStop
  | server (created : Bool)
  | sweeper (wake : Option Bool) (hasMoreExpired : Bool)

/-- The next step of `StartSweeperThread` or `StopSweeperThread`. -/
def server (s : SweeperThread) (created : Bool) : SweeperThread :=
  match s.call with
  | .between => s
  | .startLock =>
      if s.mutex = none then { s with mutex := some .server, call := .startLocked } else s
  | .startLocked =>
      if s.running then { s with call := .startThrow }
      else { s with running := true, call := .startUnlock }
  | .startThrow => { s with mutex := none, call := .between }
  | .startUnlock => { s with mutex := none, call := .startCreate }
  | .startCreate =>
      if created then { s with point := .acquiring false, call := .startAssign }
      else { s with call := .failLock }
  | .startAssign =>
      if s.joinable then { s with aborted := true, call := .between }
      else { s with joinable := true, call := .between }
  | .failLock =>
      if s.mutex = none then { s with mutex := some .server, call := .failLocked } else s
  | .failLocked => { s with running := false, call := .failUnlock }
  | .failUnlock => { s with mutex := none, call := .between }
  | .stopLock =>
      if s.mutex = none then { s with mutex := some .server, call := .stopLocked } else s
  | .stopLocked => { s with running := false, call := .stopUnlock }
  | .stopUnlock => { s with mutex := none, call := .stopNotify }
  | .stopNotify =>
      match s.point with
      | .waiting _ => { s with point := .waiting true, call := .stopJoin }
      | _ => { s with call := .stopJoin }
  | .stopJoin =>
      if s.joinable then
        if s.point = .finished then { s with joinable := false, point := .absent, call := .between }
        else s
      else { s with call := .between }

/-- The next step of `SweeperLoop`. A notified wait ends. -/
def sweeper (s : SweeperThread) (wake : Option Bool) (hasMoreExpired : Bool) : SweeperThread :=
  match s.point with
  | .absent | .finished => s
  | .acquiring timedOut =>
      if s.mutex = none then { s with mutex := some .sweeper, point := .testing timedOut } else s
  | .testing timedOut =>
      if !s.running then { s with point := .leaving }
      else if timedOut then { s with point := .unlocking }
      else { s with mutex := none, point := .waiting false }
  | .waiting notified =>
      match wake with
      | some timedOut => { s with point := .acquiring timedOut }
      | none => if notified then { s with point := .acquiring false } else s
  | .unlocking => { s with mutex := none, point := .sweeping }
  | .sweeping => { s with point := .swept hasMoreExpired }
  | .swept more =>
      if more && !s.stopRequested then { s with point := .sweeping }
      else { s with point := .acquiring false }
  | .leaving => { s with mutex := none, point := .finished }

/-- One step. A call begins when the last one has returned. -/
def step (s : SweeperThread) : Event → SweeperThread
  | .start =>
      if s.call = .between ∧ 0 < s.interval then { s with call := .startLock } else s
  | .stop => if s.call = .between then { s with call := .stopLock } else s
  | .requestStop => { s with stopRequested := true }
  | .server created => s.server created
  | .sweeper wake hasMoreExpired => s.sweeper wake hasMoreExpired

/-- The interleavings. -/
def machine : Machine SweeperThread Event := ⟨step⟩

end SweeperThread

/-- The server has the mutex. -/
def SweeperCall.holding : SweeperCall → Bool
  | startLocked | startThrow | startUnlock | failLocked | failUnlock | stopLocked | stopUnlock =>
      true
  | _ => false

/-- What `m_sweeperRunning` is at a point of a call, where the thread object is as given. -/
def SweeperCall.running (joinable : Bool) : SweeperCall → Bool
  | startUnlock | startCreate | startAssign | failLock | failLocked => true
  | failUnlock | stopUnlock | stopNotify | stopJoin => false
  | between | startLock | startLocked | startThrow | stopLock | stopLocked => joinable

/-- A thread is being created, and the thread object is still empty. -/
def SweeperCall.creating : SweeperCall → Bool
  | startUnlock | startCreate | startAssign | failLock | failLocked | failUnlock => true
  | _ => false

/-- The points of `StartSweeperThread`. -/
def SweeperCall.starting : SweeperCall → Bool
  | startLock | startLocked | startThrow | startUnlock | startCreate | startAssign | failLock
  | failLocked | failUnlock => true
  | _ => false

/-- The points of `StopSweeperThread`. -/
def SweeperCall.stopping : SweeperCall → Bool
  | stopLock | stopLocked | stopUnlock | stopNotify | stopJoin => true
  | _ => false

/-- The sweeper has the mutex. -/
def SweeperPoint.holding : SweeperPoint → Bool
  | testing _ | unlocking | leaving => true
  | _ => false

/-- The sweeper has seen that it is to stop. -/
def SweeperPoint.stopping : SweeperPoint → Bool
  | leaving | finished => true
  | _ => false

namespace SweeperThread

/-! ### What holds between the steps -/

/-- The invariant of the two threads. -/
structure Invariant (s : SweeperThread) : Prop where
  server : s.mutex = some .server ↔ s.call.holding = true
  sweeper : s.mutex = some .sweeper ↔ s.point.holding = true
  flag : s.running = s.call.running s.joinable
  creating : s.call.creating = true → s.joinable = false
  throwing : s.call = .startThrow → s.joinable = true
  absent : s.point = .absent ↔ s.joinable = false ∧ s.call ≠ .startAssign
  stopping : s.point.stopping = true → s.running = false
  notified : s.point = .waiting false →
    s.running = true ∨ s.call = .stopUnlock ∨ s.call = .stopNotify
  alive : s.aborted = false

theorem invariant_initial (interval : Int) : Invariant { interval } where
  server := iff_of_false nofun nofun
  sweeper := iff_of_false nofun nofun
  flag := rfl
  creating := nofun
  throwing := nofun
  absent := iff_of_true rfl ⟨rfl, nofun⟩
  stopping := nofun
  notified := nofun
  alive := rfl

/-- A step of the server. -/
theorem Invariant.server_step {s : SweeperThread} (h : Invariant s) (created : Bool) :
    Invariant (s.server created) := by
  obtain ⟨hserver, hsweeper, hflag, hcreating, hthrowing, habsent, hstopping, hnotified,
    halive⟩ := h
  unfold SweeperThread.server
  cases hcall : s.call with
  | between | startThrow | startUnlock | failLocked | failUnlock | stopLocked | stopUnlock =>
      constructor <;> simp_all [SweeperCall.holding, SweeperCall.running, SweeperCall.creating]
  | startLock | failLock | stopLock =>
      dsimp only
      split <;> constructor <;>
        simp_all [SweeperCall.holding, SweeperCall.running, SweeperCall.creating]
  | startLocked =>
      -- the flag tells whether there is a thread
      cases hrunning : s.running <;> constructor <;>
        simp_all [SweeperCall.holding, SweeperCall.running, SweeperCall.creating,
          SweeperPoint.stopping]
  | startCreate =>
      cases created <;> constructor <;>
        simp_all [SweeperCall.holding, SweeperCall.running, SweeperCall.creating,
          SweeperPoint.holding, SweeperPoint.stopping]
  | startAssign =>
      have hempty : s.joinable = false := hcreating (by rw [hcall]; rfl)
      constructor <;>
        simp_all [SweeperCall.holding, SweeperCall.running, SweeperCall.creating]
  | stopNotify =>
      dsimp only
      split <;> constructor <;>
        simp_all [SweeperCall.holding, SweeperCall.running, SweeperCall.creating,
          SweeperPoint.holding, SweeperPoint.stopping]
  | stopJoin =>
      dsimp only
      split
      case isTrue hjoinable =>
        split <;> constructor <;>
          simp_all [SweeperCall.holding, SweeperCall.running, SweeperCall.creating,
            SweeperPoint.holding, SweeperPoint.stopping]
      case isFalse =>
        constructor <;>
          simp_all [SweeperCall.holding, SweeperCall.running, SweeperCall.creating,
            SweeperPoint.holding, SweeperPoint.stopping]

/-- A step of the sweeper. -/
theorem Invariant.sweeper_step {s : SweeperThread} (h : Invariant s) (wake : Option Bool)
    (hasMoreExpired : Bool) : Invariant (s.sweeper wake hasMoreExpired) := by
  obtain ⟨hserver, hsweeper, hflag, hcreating, hthrowing, habsent, hstopping, hnotified,
    halive⟩ := h
  unfold SweeperThread.sweeper
  cases hpoint : s.point with
  | absent | finished | unlocking | sweeping | leaving =>
      constructor <;> simp_all [SweeperPoint.holding, SweeperPoint.stopping]
  | acquiring timedOut =>
      dsimp only
      split <;> constructor <;> simp_all [SweeperPoint.holding, SweeperPoint.stopping]
  | testing timedOut =>
      -- the sweeper waits only if the flag is set, and it releases the mutex at once
      cases hrunning : s.running <;> cases timedOut <;> constructor <;>
        simp_all [SweeperPoint.holding, SweeperPoint.stopping]
  | waiting notified =>
      cases wake <;> cases notified <;> constructor <;>
        simp_all [SweeperPoint.holding, SweeperPoint.stopping]
  | swept more =>
      dsimp only
      split <;> constructor <;> simp_all [SweeperPoint.holding, SweeperPoint.stopping]

/-- A call begins. -/
theorem Invariant.begin {s : SweeperThread} (h : Invariant s) (hbetween : s.call = .between)
    {call : SweeperCall} (hcall : call = .startLock ∨ call = .stopLock) :
    Invariant { s with call } := by
  obtain ⟨hserver, hsweeper, hflag, hcreating, hthrowing, habsent, hstopping, hnotified,
    halive⟩ := h
  rw [hbetween] at hserver hflag habsent hnotified
  rcases hcall with rfl | rfl
  all_goals
    refine ⟨hserver, hsweeper, hflag, nofun, nofun, habsent.trans (by simp), hstopping, ?_, halive⟩
    exact fun hpoint => (hnotified hpoint).imp id (by simp)

theorem Invariant.step {s : SweeperThread} (h : Invariant s) (e : Event) :
    Invariant (SweeperThread.step s e) := by
  cases e with
  | start =>
      simp only [SweeperThread.step]
      split
      case isTrue hbegin => exact h.begin hbegin.1 (.inl rfl)
      case isFalse => exact h
  | stop =>
      simp only [SweeperThread.step]
      split
      case isTrue hbetween => exact h.begin hbetween (.inr rfl)
      case isFalse => exact h
  | requestStop => exact ⟨h.1, h.2, h.3, h.4, h.5, h.6, h.7, h.8, h.9⟩
  | server created => exact h.server_step created
  | sweeper wake hasMoreExpired => exact h.sweeper_step wake hasMoreExpired

theorem Invariant.run {s : SweeperThread} (h : Invariant s) (events : List Event) :
    Invariant (machine.run s events) :=
  machine.run_invariant (fun _ hs e _ => hs.step e) h

/-- The mutex is never held twice and not during a sweep; a sweeper that waits without having
been notified is not to stop, or is still to be notified; between calls the flag and the
thread object tell whether there is a sweeper; `StartSweeperThread` refuses only when there is
one; and no joinable thread is ever assigned to. -/
theorem run_safe (interval : Int) (events : List Event) :
    let s := machine.run { interval } events
    ¬ (s.call.holding = true ∧ s.point.holding = true) ∧
      (s.point = .sweeping → s.mutex ≠ some .sweeper) ∧
      (s.point = .waiting false →
        s.running = true ∨ s.call = .stopUnlock ∨ s.call = .stopNotify) ∧
      (s.call = .between → s.running = s.joinable ∧ (s.point = .absent ↔ s.joinable = false)) ∧
      (s.call = .startThrow → s.point ≠ .absent) ∧ s.aborted = false := by
  intro s
  have h : Invariant s := (invariant_initial interval).run events
  refine ⟨?_, ?_, h.notified, ?_, ?_, h.alive⟩
  · rintro ⟨hcall, hpoint⟩
    cases (h.server.mpr hcall).symm.trans (h.sweeper.mpr hpoint)
  · intro hpoint hmutex
    have hholding := h.sweeper.mp hmutex
    rw [hpoint] at hholding
    cases hholding
  · intro hbetween
    have hflag := h.flag
    have habsent := h.absent
    rw [hbetween] at hflag habsent
    exact ⟨hflag, habsent.trans (and_iff_left nofun)⟩
  · intro hthrow hpoint
    have hempty := (h.absent.mp hpoint).1
    rw [h.throwing hthrow] at hempty
    cases hempty

/-! ### `StartSweeperThread` returns -/

/-- How far `StartSweeperThread` is from its end. -/
def startingRank : SweeperCall → Nat
  | .between => 7
  | .startLock => 6
  | .startLocked => 5
  | .startUnlock => 4
  | .startCreate => 3
  | .failLock => 2
  | .failLocked => 1
  | _ => 0

/-- While there is no sweeper, every step of `StartSweeperThread` leads on. -/
theorem server_starting {s : SweeperThread} (h : Invariant s) (hcall : s.call.starting = true)
    (hempty : s.joinable = false) (created : Bool) :
    (s.server created).call = .between ∨
      (s.server created).call.starting = true ∧ (s.server created).joinable = false ∧
        startingRank (s.server created).call < startingRank s.call := by
  -- nobody holds the mutex outside the calls that do
  have hfree (hassign : s.call ≠ .startAssign) (hholding : s.call.holding = false) :
      s.mutex = none := by
    cases hparty : s.mutex with
    | none => rfl
    | some party =>
        cases party with
        | server =>
            rw [h.server.mp hparty] at hholding
            cases hholding
        | sweeper =>
            have hpoint := h.sweeper.mp hparty
            rw [h.absent.mpr ⟨hempty, hassign⟩] at hpoint
            cases hpoint
  cases hat : s.call with
  | startLock | failLock =>
      have hmutex := hfree (by rw [hat]; decide) (by rw [hat]; rfl)
      simp [server, hat, hmutex, SweeperCall.starting, hempty, startingRank]
  | startLocked =>
      have hrunning : s.running = false := by
        rw [h.flag, hat]
        exact hempty
      simp [server, hat, hrunning, SweeperCall.starting, hempty, startingRank]
  | startThrow =>
      rw [h.throwing hat] at hempty
      cases hempty
  | startUnlock | failLocked | failUnlock | startAssign =>
      simp [server, hat, SweeperCall.starting, hempty, startingRank]
  | startCreate =>
      cases created with
      | true => simp [server, hat, SweeperCall.starting, hempty, startingRank]
      | false => simp [server, hat, SweeperCall.starting, hempty, startingRank]
  | between | stopLock | stopLocked | stopUnlock | stopNotify | stopJoin =>
      rw [hat] at hcall
      cases hcall

/-! ### `StopSweeperThread` returns -/

/-- A step of the thread of the server. -/
def Event.isServer (e : Event) : Prop := ∃ created, e = server created

/-- A step of the sweeper. -/
def Event.isSweeper (e : Event) : Prop := ∃ wake hasMoreExpired, e = sweeper wake hasMoreExpired

/-- A sweep may leave expired entries only when the next one is not called anyway. -/
def PassEnds (s : SweeperThread) (e : Event) : Prop :=
  ∀ wake, e = .sweeper wake true → s.stopRequested = true

theorem sweeper_call (s : SweeperThread) (wake : Option Bool) (hasMoreExpired : Bool) :
    (s.sweeper wake hasMoreExpired).call = s.call := by
  unfold sweeper
  split
  all_goals
    try split
    all_goals
      try split
      all_goals rfl

theorem sweeper_joinable (s : SweeperThread) (wake : Option Bool) (hasMoreExpired : Bool) :
    (s.sweeper wake hasMoreExpired).joinable = s.joinable := by
  unfold sweeper
  split
  all_goals
    try split
    all_goals
      try split
      all_goals rfl

/-- Only `Stop` sets the flag of the server. -/
theorem step_stopRequested (s : SweeperThread) {e : Event} (he : e ≠ .requestStop) :
    (step s e).stopRequested = s.stopRequested := by
  cases e with
  | requestStop => exact absurd rfl he
  | start | stop =>
      simp only [step]
      split
      · rfl
      · rfl
  | server created =>
      simp only [step, server]
      split
      all_goals
        try split
        all_goals
          try split
          all_goals rfl
  | sweeper wake hasMoreExpired =>
      simp only [step, sweeper]
      split
      all_goals
        try split
        all_goals
          try split
          all_goals rfl

/-- Only the server changes where it is in a call. -/
theorem step_call {s : SweeperThread} (hcall : s.call ≠ .between) {e : Event}
    (he : ¬ e.isServer) : (step s e).call = s.call := by
  cases e with
  | start | stop => simp only [step, hcall, false_and, if_false]
  | requestStop => rfl
  | server created => exact absurd ⟨created, rfl⟩ he
  | sweeper wake hasMoreExpired => exact sweeper_call s wake hasMoreExpired

section Stopping

variable {x : Execution machine}

/-- A point the server leaves with its next step. -/
theorem leadsTo_next (hserver : x.Recurs fun _ e => e.isServer) {here next : SweeperCall}
    (hhere : here ≠ .between)
    (hmove : ∀ s created, s.call = here → (SweeperThread.server s created).call = next) :
    x.LeadsTo (fun s => s.call = here) fun s => s.call = next := by
  have hstep : ∀ n, (x.state n).call = here → (x.event n).isServer →
      (x.state (n + 1)).call = next := by
    rintro n hcall ⟨created, hevent⟩
    rw [x.next, hevent]
    exact hmove _ created hcall
  apply Execution.LeadsTo.of_step hserver
  · intro n hcall
    by_cases he : (x.event n).isServer
    · exact .inr (hstep n hcall he)
    · rw [x.next]
      exact .inl ((step_call (hcall ▸ hhere) he).trans hcall)
  · exact hstep

/-- How far the sweeper is from releasing the mutex. -/
def holdingRank : SweeperPoint → Nat
  | .testing _ => 2
  | .unlocking | .leaving => 1
  | _ => 0

/-- The sweeper goes on, or releases the mutex. -/
theorem sweeper_holding {s : SweeperThread} (hholding : s.point.holding = true)
    (wake : Option Bool) (hasMoreExpired : Bool) :
    (s.sweeper wake hasMoreExpired).mutex = none ∨
      (s.sweeper wake hasMoreExpired).mutex = s.mutex ∧
        holdingRank (s.sweeper wake hasMoreExpired).point < holdingRank s.point := by
  unfold sweeper
  cases hpoint : s.point with
  | testing timedOut =>
      dsimp only
      split
      · exact .inr ⟨rfl, Nat.lt_succ_self 1⟩
      · split
        · exact .inr ⟨rfl, Nat.lt_succ_self 1⟩
        · exact .inl rfl
  | unlocking | leaving => exact .inl rfl
  | absent | acquiring | waiting | sweeping | swept | finished =>
      rw [hpoint] at hholding
      cases hholding

/-- Where the server cannot go on, only the sweeper moves. -/
theorem step_blocked {s : SweeperThread} (hcall : s.call ≠ .between)
    (hserver : ∀ created, s.server created = s) {e : Event} (he : ¬ e.isSweeper) :
    step s e = s ∨ step s e = { s with stopRequested := true } := by
  cases e with
  | start | stop => simp only [step, hcall, false_and, if_false, true_or]
  | requestStop => exact .inr rfl
  | server created => exact .inl (hserver created)
  | sweeper wake hasMoreExpired => exact absurd ⟨wake, hasMoreExpired, rfl⟩ he

/-- While the server waits for the mutex, the sweeper releases it. -/
theorem leadsTo_free (hinvariant : ∀ n, Invariant (x.state n))
    (hsweeper : x.Recurs fun _ e => e.isSweeper) :
    x.LeadsTo (fun s => s.call = .stopLock) fun s => s.call = .stopLocked ∨ s.mutex = none := by
  apply Execution.LeadsTo.of_rank fun s => holdingRank s.point
  intro w
  apply Execution.LeadsTo.of_cases (E := fun s => s.mutex = none)
  · exact Execution.LeadsTo.of_imp fun n hp => .inl (.inr hp.2)
  · have hmoves : ∀ n, ((x.state n).call = .stopLock ∧ holdingRank (x.state n).point = w) ∧
        ¬ (x.state n).mutex = none → (x.event n).isSweeper →
        ((x.state (n + 1)).call = .stopLocked ∨ (x.state (n + 1)).mutex = none) ∨
          (x.state (n + 1)).call = .stopLock ∧ holdingRank (x.state (n + 1)).point < w := by
      rintro n ⟨⟨hcall, hrank⟩, hmutex⟩ ⟨wake, more, hevent⟩
      have hholding : (x.state n).point.holding = true := by
        apply (hinvariant n).sweeper.mp
        cases hparty : (x.state n).mutex with
        | none => exact absurd hparty hmutex
        | some party =>
            cases party with
            | sweeper => rfl
            | server =>
                have hserver := (hinvariant n).server.mp hparty
                rw [hcall] at hserver
                cases hserver
      have hsame := sweeper_call (x.state n) wake more
      rw [x.next, hevent]
      rcases sweeper_holding hholding wake more with hfree | ⟨-, hlt⟩
      · exact .inl (.inr hfree)
      · exact .inr ⟨hsame.trans hcall, hrank ▸ hlt⟩
    apply Execution.LeadsTo.of_step hsweeper _ hmoves
    intro n hp
    by_cases he : (x.event n).isSweeper
    · exact .inr (hmoves n hp he)
    · obtain ⟨⟨hcall, hrank⟩, hmutex⟩ := hp
      have hblocked : ∀ created, (x.state n).server created = x.state n := by
        intro created
        simp only [SweeperThread.server, hcall, hmutex, if_false]
      have hnext := step_blocked (by rw [hcall]; nofun) hblocked he
      change machine.step _ _ = _ ∨ machine.step _ _ = _ at hnext
      rw [← x.next] at hnext
      rcases hnext with hsame | hsame
      all_goals
        rw [hsame]
        exact .inl ⟨⟨hcall, hrank⟩, hmutex⟩

/-- The server gets the mutex. -/
theorem leadsTo_stopLocked (hinvariant : ∀ n, Invariant (x.state n))
    (hsweeper : x.Recurs fun _ e => e.isSweeper)
    (hmutex : x.Recurs (fun s _ => s.mutex = none) →
      x.Recurs fun s e => s.mutex = none ∧ e.isServer) :
    x.LeadsTo (fun s => s.call = .stopLock) fun s => s.call = .stopLocked := by
  apply Execution.LeadsTo.of_enabled hmutex _ (leadsTo_free hinvariant hsweeper)
  · rintro n hcall hfree ⟨created, hevent⟩
    rw [x.next, hevent]
    simp only [machine, step, SweeperThread.server, hcall, hfree, if_true]
  · intro n hcall
    by_cases he : (x.event n).isServer
    · obtain ⟨created, hevent⟩ := he
      rw [x.next, hevent]
      simp only [machine, step, SweeperThread.server, hcall]
      split
      · exact .inr rfl
      · exact .inl hcall
    · rw [x.next]
      exact .inl ((step_call (by rw [hcall]; nofun) he).trans hcall)

/-- How far the sweeper is from its end, once it is to stop. -/
def stoppingRank (s : SweeperThread) : Nat :=
  match s.point with
  | .absent | .finished => 0
  | .leaving => 1
  | .testing _ => 2
  | .acquiring _ => 3
  | .waiting _ => 4
  | .swept more => if more && !s.stopRequested then 6 else 4
  | .sweeping => 5
  | .unlocking => 7

/-- A sweeper that is to stop comes closer to its end with every step. -/
theorem sweeper_stopping {s : SweeperThread} (h : Invariant s) (hcall : s.call = .stopJoin)
    {wake : Option Bool} {hasMoreExpired : Bool}
    (hpass : PassEnds s (.sweeper wake hasMoreExpired)) (hrank : stoppingRank s ≠ 0) :
    stoppingRank (s.sweeper wake hasMoreExpired) < stoppingRank s := by
  have hrunning : s.running = false := by
    rw [h.flag, hcall]
    rfl
  unfold sweeper
  cases hpoint : s.point with
  | absent | finished => simp only [stoppingRank, hpoint, ne_eq, not_true] at hrank
  | leaving | unlocking => simp [stoppingRank, hpoint]
  | testing timedOut => simp [stoppingRank, hpoint, hrunning]
  | acquiring timedOut =>
      have hfree : s.mutex = none := by
        cases hparty : s.mutex with
        | none => rfl
        | some party =>
            cases party with
            | server =>
                have hholding := h.server.mp hparty
                rw [hcall] at hholding
                cases hholding
            | sweeper =>
                have hholding := h.sweeper.mp hparty
                rw [hpoint] at hholding
                cases hholding
      simp [stoppingRank, hpoint, hfree]
  | waiting notified =>
      -- the server has notified the sweeper
      cases notified with
      | true => cases wake <;> simp [stoppingRank, hpoint]
      | false =>
          rcases h.notified hpoint with hr | hr | hr
          · rw [hrunning] at hr
            cases hr
          · rw [hcall] at hr
            cases hr
          · rw [hcall] at hr
            cases hr
  | sweeping =>
      cases hasMoreExpired with
      | false => simp [stoppingRank, hpoint]
      | true => simp [stoppingRank, hpoint, hpass wake rfl]
  | swept more =>
      dsimp only
      split
      case isTrue hmore => simp [stoppingRank, hpoint, hmore]
      case isFalse hmore => simp [stoppingRank, hpoint, hmore]

/-- `Stop` does not delay the sweeper. -/
theorem stoppingRank_le {s s' : SweeperThread}
    (h : s' = s ∨ s' = { s with stopRequested := true }) :
    s'.call = s.call ∧ stoppingRank s' ≤ stoppingRank s := by
  rcases h with rfl | rfl
  · exact ⟨rfl, le_rfl⟩
  · refine ⟨rfl, ?_⟩
    cases hpoint : s.point with
    | swept more =>
        simp only [stoppingRank, hpoint, Bool.not_true, Bool.and_false, Bool.false_eq_true,
          if_false]
        split <;> decide
    | _ => simp [stoppingRank, hpoint]

/-- The thread object after a call, and the sweeper. -/
def Stopped (s : SweeperThread) : Prop :=
  s.call = .between ∧ s.joinable = false ∧ s.point = .absent

/-- The server joins a sweeper that has ended, and goes on where there is none. -/
theorem server_join {s : SweeperThread} (h : Invariant s) (hcall : s.call = .stopJoin)
    (hrank : stoppingRank s = 0) (created : Bool) : Stopped (s.server created) := by
  have habsent := h.absent
  rw [hcall, and_iff_left (by nofun)] at habsent
  cases hpoint : s.point with
  | absent =>
      have hempty : s.joinable = false := habsent.mp hpoint
      simp [SweeperThread.server, hcall, hempty, Stopped, hpoint]
  | finished =>
      have hjoinable : s.joinable = true := by
        rw [← Bool.not_eq_false, ← habsent, hpoint]
        nofun
      simp [SweeperThread.server, hcall, hjoinable, hpoint, Stopped]
  | swept more =>
      simp only [stoppingRank, hpoint] at hrank
      split at hrank <;> cases hrank
  | acquiring | testing | waiting | unlocking | sweeping | leaving =>
      simp only [stoppingRank, hpoint] at hrank
      cases hrank

/-- A sweeper that has ended, or has never begun, does nothing. -/
theorem sweeper_ended {s : SweeperThread} (hrank : stoppingRank s = 0) (wake : Option Bool)
    (hasMoreExpired : Bool) : s.sweeper wake hasMoreExpired = s := by
  cases hpoint : s.point with
  | absent | finished => simp only [sweeper, hpoint]
  | swept more =>
      simp only [stoppingRank, hpoint] at hrank
      split at hrank <;> cases hrank
  | acquiring | testing | waiting | unlocking | sweeping | leaving =>
      simp only [stoppingRank, hpoint] at hrank
      cases hrank

/-- The server waits for the sweeper to end. -/
theorem server_waits {s : SweeperThread} (h : Invariant s) (hcall : s.call = .stopJoin)
    (hrank : stoppingRank s ≠ 0) (created : Bool) : s.server created = s := by
  have habsent := h.absent
  rw [hcall, and_iff_left (by nofun)] at habsent
  have hpresent : s.point ≠ .absent := fun hpoint => hrank (by rw [stoppingRank, hpoint])
  have hrunning : s.point ≠ .finished := fun hpoint => hrank (by rw [stoppingRank, hpoint])
  have hjoinable : s.joinable = true := by rwa [← Bool.not_eq_false, ← habsent]
  simp only [SweeperThread.server, hcall, hjoinable, hrunning, if_true, if_false]

/-- The call goes on, or there is no sweeper any more. -/
theorem server_stopping {s : SweeperThread} (h : Invariant s) (hcall : s.call.stopping = true)
    (created : Bool) : (s.server created).call.stopping = true ∨ Stopped (s.server created) := by
  cases hat : s.call with
  | stopLock =>
      simp only [server, hat]
      split
      · exact .inl rfl
      · exact .inl hcall
  | stopLocked | stopUnlock => exact .inl (by simp [server, hat, SweeperCall.stopping])
  | stopNotify =>
      simp only [server, hat]
      split
      · exact .inl rfl
      · exact .inl rfl
  | stopJoin =>
      by_cases hrank : stoppingRank s = 0
      · exact .inr (server_join h hat hrank created)
      · rw [server_waits h hat hrank created]
        exact .inl hcall
  | _ =>
      rw [hat] at hcall
      cases hcall

/-- Once passes end, the server joins the sweeper. -/
theorem leadsTo_stopped (hinvariant : ∀ n, Invariant (x.state n))
    (hserver : x.Recurs fun _ e => e.isServer) (hsweeper : x.Recurs fun _ e => e.isSweeper)
    (hpass : ∀ n, PassEnds (x.state n) (x.event n)) :
    x.LeadsTo (fun s => s.call = .stopJoin) Stopped := by
  apply Execution.LeadsTo.of_rank stoppingRank
  intro w
  apply Execution.LeadsTo.of_cases (E := fun s => stoppingRank s = 0)
  · -- the sweeper has ended
    have hjoins : ∀ n, ((x.state n).call = .stopJoin ∧ stoppingRank (x.state n) = w) ∧
        stoppingRank (x.state n) = 0 → (x.event n).isServer →
        Stopped (x.state (n + 1)) ∨
          (x.state (n + 1)).call = .stopJoin ∧ stoppingRank (x.state (n + 1)) < w := by
      rintro n ⟨⟨hcall, -⟩, hended⟩ ⟨created, hevent⟩
      rw [x.next, hevent]
      exact .inl (server_join (hinvariant n) hcall hended created)
    apply Execution.LeadsTo.of_step hserver _ hjoins
    intro n hp
    obtain ⟨⟨hcall, hrank⟩, hended⟩ := hp
    cases hevent : x.event n with
    | server created => exact .inr (hjoins n ⟨⟨hcall, hrank⟩, hended⟩ ⟨created, hevent⟩)
    | sweeper wake more =>
        have hsame : x.state (n + 1) = x.state n := by
          rw [x.next, hevent]
          exact sweeper_ended hended wake more
        rw [hsame]
        exact .inl ⟨⟨hcall, hrank⟩, hended⟩
    | start | stop | requestStop =>
        have hnext : x.state (n + 1) = x.state n ∨
            x.state (n + 1) = { x.state n with stopRequested := true } := by
          rw [x.next, hevent]
          simp [machine, step, hcall]
        obtain ⟨hsame, hle⟩ := stoppingRank_le hnext
        exact .inl ⟨⟨hsame.trans hcall, by omega⟩, by omega⟩
  · have hmoves : ∀ n, ((x.state n).call = .stopJoin ∧ stoppingRank (x.state n) = w) ∧
        ¬ stoppingRank (x.state n) = 0 → (x.event n).isSweeper →
        Stopped (x.state (n + 1)) ∨
          (x.state (n + 1)).call = .stopJoin ∧ stoppingRank (x.state (n + 1)) < w := by
      rintro n ⟨⟨hcall, hrank⟩, hgoing⟩ ⟨wake, more, hevent⟩
      have hlt := sweeper_stopping (hinvariant n) hcall (hevent ▸ hpass n) hgoing
      rw [x.next, hevent]
      exact .inr ⟨(sweeper_call _ wake more).trans hcall, hrank ▸ hlt⟩
    apply Execution.LeadsTo.of_step hsweeper _ hmoves
    intro n hp
    by_cases he : (x.event n).isSweeper
    · exact .inr (hmoves n hp he)
    · obtain ⟨⟨hcall, hrank⟩, hgoing⟩ := hp
      have hnext :=
        step_blocked (by rw [hcall]; nofun) (server_waits (hinvariant n) hcall hgoing) he
      change machine.step _ _ = _ ∨ machine.step _ _ = _ at hnext
      rw [← x.next] at hnext
      obtain ⟨hsame, hle⟩ := stoppingRank_le hnext
      by_cases hw : stoppingRank (x.state (n + 1)) = w
      · exact .inl ⟨⟨hsame.trans hcall, hw⟩, by omega⟩
      · exact .inr (.inr ⟨hsame.trans hcall, by omega⟩)

/-- From every point of `StopSweeperThread` on, the call returns, and there is no sweeper any
more. -/
theorem leadsTo_stopped_of_stopping (x : Execution machine) (hstart : Invariant (x.state 0))
    (hserver : x.Recurs fun _ e => e.isServer) (hsweeper : x.Recurs fun _ e => e.isSweeper)
    (hmutex : x.Recurs (fun s _ => s.mutex = none) →
      x.Recurs fun s e => s.mutex = none ∧ e.isServer)
    (hpass : x.Settles PassEnds) : x.LeadsTo (fun s => s.call.stopping = true) Stopped := by
  have hinvariant : ∀ n, Invariant (x.state n) :=
    x.invariant (fun s e hs => hs.step e) hstart
  have hunlock : x.LeadsTo (fun s => s.call = .stopLocked) fun s => s.call = .stopUnlock :=
    leadsTo_next hserver nofun fun s created hcall => by simp only [SweeperThread.server, hcall]
  have hnotify : x.LeadsTo (fun s => s.call = .stopUnlock) fun s => s.call = .stopNotify :=
    leadsTo_next hserver nofun fun s created hcall => by simp only [SweeperThread.server, hcall]
  have hjoin : x.LeadsTo (fun s => s.call = .stopNotify) fun s => s.call = .stopJoin := by
    refine leadsTo_next hserver nofun fun s created hcall => ?_
    simp only [SweeperThread.server, hcall]
    split <;> rfl
  have hstopped : x.LeadsTo (fun s => s.call = .stopJoin) Stopped := by
    obtain ⟨k, hk⟩ := hpass
    apply Execution.LeadsTo.of_drop (k := k)
    · intro n hcall
      cases hevent : x.event n with
      | server created =>
          rw [x.next, hevent]
          by_cases hrank : stoppingRank (x.state n) = 0
          · exact .inr (server_join (hinvariant n) hcall hrank created)
          · have hsame := server_waits (hinvariant n) hcall hrank created
            exact .inl ((congrArg SweeperThread.call hsame).trans hcall)
      | start | stop | requestStop | sweeper =>
          have hsame := step_call (s := x.state n) (by rw [hcall]; nofun) (e := x.event n)
            (by rw [hevent]; rintro ⟨created, he⟩; cases he)
          rw [x.next]
          exact .inl (hsame.trans hcall)
    · exact leadsTo_stopped (fun n => hinvariant (k + n)) (hserver.drop k) (hsweeper.drop k)
        fun n => hk (k + n) (Nat.le_add_right k n)
  have hjoined := hjoin.trans hstopped
  have hnotified := hnotify.trans hjoined
  have hunlocked := hunlock.trans hnotified
  intro n hcall
  cases hat : (x.state n).call with
  | stopLock => exact (leadsTo_stopLocked hinvariant hsweeper hmutex).trans hunlocked n hat
  | stopLocked => exact hunlocked n hat
  | stopUnlock => exact hnotified n hat
  | stopNotify => exact hjoined n hat
  | stopJoin => exact hstopped n hat
  | _ =>
      rw [hat] at hcall
      cases hcall

/-- `StopSweeperThread` returns, and there is no sweeper any more. The threads are scheduled
again and again, a mutex that is free again and again is had in the end, and from some time on
a sweep leaves expired entries only when the server has been asked to stop. No wait need end
by a timeout. -/
theorem stopSweeperThread_returns (x : Execution machine) (hstart : Invariant (x.state 0))
    (hserver : x.Recurs fun _ e => e.isServer) (hsweeper : x.Recurs fun _ e => e.isSweeper)
    (hmutex : x.Recurs (fun s _ => s.mutex = none) →
      x.Recurs fun s e => s.mutex = none ∧ e.isServer)
    (hpass : x.Settles PassEnds) : x.LeadsTo (fun s => s.call = .stopLock) Stopped := by
  have hleads := leadsTo_stopped_of_stopping x hstart hserver hsweeper hmutex hpass
  refine Execution.LeadsTo.trans (Execution.LeadsTo.of_imp fun n hcall => ?_) hleads
  exact congrArg SweeperCall.stopping hcall

/-- The threads in turns. -/
def inTurns (n : Nat) : Event := if n % 2 = 0 then .server true else .sweeper none false

/-- A call that begins while the sweeper waits. -/
def stopWaiting : Execution machine :=
  .under machine
    { interval := 1, running := true, joinable := true, call := .stopLock, point := .waiting false }
    inTurns

theorem stopWaiting_end {n : Nat} (h : 15 ≤ n) : stopWaiting.state n = { interval := 1 } := by
  induction n, h using Nat.le_induction with
  | base => rfl
  | succ n h ih =>
      rw [stopWaiting.next, ih]
      change step _ (inTurns n) = _
      rw [inTurns]
      split <;> rfl

/-- A call that begins while the sweeper waits returns, though no wait times out. -/
theorem stopSweeperThread_returns_waiting : ∃ m ≥ 0, Stopped (stopWaiting.state m) := by
  have hturn : ∀ n, stopWaiting.event n = inTurns n := fun _ => rfl
  have hserver : stopWaiting.Recurs fun _ e => e.isServer := by
    intro n
    refine ⟨2 * n, by omega, true, ?_⟩
    rw [hturn, inTurns, if_pos (by omega)]
  have hsweeper : stopWaiting.Recurs fun _ e => e.isSweeper := by
    intro n
    refine ⟨2 * n + 1, by omega, none, false, ?_⟩
    rw [hturn, inTurns, if_neg (by omega)]
  have hmutex : stopWaiting.Recurs fun s e => s.mutex = none ∧ e.isServer := by
    intro n
    refine ⟨2 * (n + 15), by omega, ?_, true, ?_⟩
    · rw [stopWaiting_end (by omega)]
    · rw [hturn, inTurns, if_pos (by omega)]
  apply stopSweeperThread_returns stopWaiting _ hserver hsweeper (fun _ => hmutex) _ 0 rfl
  · exact ⟨by decide, by decide, rfl, nofun, nofun, by decide, nofun, fun _ => .inl rfl, rfl⟩
  · refine ⟨0, fun m _ wake hevent => ?_⟩
    rw [hturn, inTurns] at hevent
    split at hevent <;> cases hevent

end Stopping

end SweeperThread

end TinyKv
