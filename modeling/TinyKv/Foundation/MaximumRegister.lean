import Mathlib.Order.MinMax
import TinyKv.Foundation.Machine

/-!
# Raising a shared maximum

Any number of calls raise a shared register to their candidates. A call loads the register
and tries a compare-and-exchange for as long as its candidate is larger than the value it has
read last. Each load and each compare-and-exchange is one step of its own, the steps interleave,
and a compare-and-exchange may fail without cause.
-/

namespace TinyKv.Foundation

/-- The next atomic operation of a call; an exchange expects the value that was read last. -/
inductive RaisePoint (α : Type*) where
  | load
  | exchange (current : α)
deriving DecidableEq

/-- A call in progress. -/
structure RaiseCall (α : Type*) where
  candidate : α
  point : RaisePoint α := .load
deriving DecidableEq

namespace RaiseCall

variable {α : Type*} [LinearOrder α]

/-- What is left of a call that has read a value: nothing unless its candidate is larger. -/
def compare (candidate current : α) : Option (RaiseCall α) :=
  if candidate > current then some ⟨candidate, .exchange current⟩ else none

/-- One atomic operation of a call, with the value of the register after it and what is left of
the call. An exchange that fails reads the value. -/
def step (call : RaiseCall α) (value : α) (spurious : Bool) : α × Option (RaiseCall α) :=
  match call.point with
  | .load => (value, compare call.candidate value)
  | .exchange current =>
      if value = current ∧ spurious = false then
        (call.candidate, none)
      else
        (value, compare call.candidate value)

/-- A call tries to exchange only what is smaller than its candidate. -/
def Ahead (call : RaiseCall α) : Prop :=
  ∀ current, call.point = .exchange current → current < call.candidate

/-- What one atomic operation can do. -/
inductive Outcome (call : RaiseCall α) (value : α) : α × Option (RaiseCall α) → Prop
  | exceeded (hle : call.candidate ≤ value) : Outcome call value (value, none)
  | retried (hlt : value < call.candidate) :
      Outcome call value (value, some ⟨call.candidate, .exchange value⟩)
  | raised (hlt : value < call.candidate) : Outcome call value (call.candidate, none)

theorem outcome_compare (call : RaiseCall α) (value : α) :
    Outcome call value (value, compare call.candidate value) := by
  unfold compare
  split
  next hlt => exact .retried hlt
  next hle => exact .exceeded (not_lt.mp hle)

theorem step_outcome {call : RaiseCall α} (h : call.Ahead) (value : α) (spurious : Bool) :
    Outcome call value (call.step value spurious) := by
  unfold step
  cases hpoint : call.point with
  | load => exact outcome_compare call value
  | exchange current =>
      simp only
      split
      next hsame =>
        obtain ⟨rfl, -⟩ := hsame
        exact .raised (h value hpoint)
      next hother => exact outcome_compare call value

end RaiseCall

/-- The register and the calls in progress; and the candidates of all calls that have begun. -/
structure MaximumRegister (ι α : Type*) where
  value : α
  calls : ι → Option (RaiseCall α) := fun _ => none
  candidates : List α := []

namespace MaximumRegister

variable {ι α : Type*} [DecidableEq ι] [LinearOrder α]

/-- A thread begins a call, or takes the next step of its call. -/
inductive Event (ι α : Type*) where
  | begin (thread : ι) (candidate : α)
  | advance (thread : ι) (spurious : Bool)

/-- One step. A thread begins a call when its last one has returned. -/
def step (r : MaximumRegister ι α) : Event ι α → MaximumRegister ι α
  | .begin thread candidate =>
      match r.calls thread with
      | some _ => r
      | none =>
          { r with
            calls := Function.update r.calls thread (some { candidate })
            candidates := r.candidates ++ [candidate] }
  | .advance thread spurious =>
      match r.calls thread with
      | none => r
      | some call =>
          let (value, rest) := call.step r.value spurious
          { r with value, calls := Function.update r.calls thread rest }

/-- The interleavings. -/
def machine : Machine (MaximumRegister ι α) (Event ι α) := ⟨step⟩

/-- The register with an initial value, before any call. -/
def initially (value : α) : MaximumRegister ι α := { value }

/-! ### The invariant -/

/-- A candidate has been reached, or its call is in progress; and the register holds its initial
value or a candidate. -/
structure Raised (initial : α) (r : MaximumRegister ι α) : Prop where
  initial_le : initial ≤ r.value
  reached : ∀ candidate ∈ r.candidates, candidate ≤ r.value ∨
    ∃ thread call, r.calls thread = some call ∧ call.candidate = candidate
  source : r.value = initial ∨ r.value ∈ r.candidates
  pending : ∀ thread call, r.calls thread = some call →
    call.candidate ∈ r.candidates ∧ call.Ahead

omit [LinearOrder α] in
/-- After a change of one call, a call is what it was changed to, or it is another one. -/
theorem calls_update {calls : ι → Option (RaiseCall α)} {thread other : ι}
    {call? : Option (RaiseCall α)} {call : RaiseCall α}
    (h : Function.update calls thread call? other = some call) :
    call? = some call ∨ calls other = some call := by
  by_cases heq : other = thread
  · rw [heq, Function.update_self] at h
    exact .inl h
  · rw [Function.update_of_ne heq] at h
    exact .inr h

theorem Raised.begin {initial : α} {r : MaximumRegister ι α} (h : Raised initial r) {thread : ι}
    (hidle : r.calls thread = none) (candidate : α) :
    Raised initial { r with
      calls := Function.update r.calls thread (some { candidate })
      candidates := r.candidates ++ [candidate] } where
  initial_le := h.initial_le
  reached c hmem := by
    obtain hmem | hnew := List.mem_append.mp hmem
    · obtain hle | ⟨other, call, hcall, heq⟩ := h.reached c hmem
      · exact .inl hle
      · have hne : other ≠ thread := by
          rintro rfl
          rw [hidle] at hcall
          cases hcall
        exact .inr ⟨other, call, (Function.update_of_ne hne ..).trans hcall, heq⟩
    · refine .inr ⟨thread, { candidate }, Function.update_self .., ?_⟩
      exact (List.mem_singleton.mp hnew).symm
  source := h.source.imp_right (List.mem_append_left _)
  pending other call hcall := by
    obtain hnew | hold := calls_update hcall
    · cases hnew
      exact ⟨List.mem_append_right _ (List.mem_singleton_self _), nofun⟩
    · obtain ⟨hmem, hahead⟩ := h.pending other call hold
      exact ⟨List.mem_append_left _ hmem, hahead⟩

/-- A step of a call keeps the invariant and does not lower the register. -/
theorem Raised.advance {initial : α} {r : MaximumRegister ι α} (h : Raised initial r) {thread : ι}
    {call : RaiseCall α} (hcall : r.calls thread = some call) {value : α}
    {rest : Option (RaiseCall α)} (houtcome : call.Outcome r.value (value, rest)) :
    r.value ≤ value ∧
      Raised initial { r with value, calls := Function.update r.calls thread rest } := by
  obtain ⟨hmem, -⟩ := h.pending thread call hcall
  have hgrows : r.value ≤ value := by
    cases houtcome with
    | exceeded hle => exact le_rfl
    | retried hlt => exact le_rfl
    | raised hlt => exact hlt.le
  refine ⟨hgrows, h.initial_le.trans hgrows, fun candidate hcandidate => ?_, ?_, ?_⟩
  · obtain hreached | ⟨other, call', hcall', rfl⟩ := h.reached candidate hcandidate
    · exact .inl (hreached.trans hgrows)
    · by_cases heq : other = thread
      · subst heq
        rw [hcall] at hcall'
        cases hcall'
        cases houtcome with
        | exceeded hle => exact .inl hle
        | retried hlt => exact .inr ⟨other, _, Function.update_self .., rfl⟩
        | raised hlt => exact .inl le_rfl
      · exact .inr ⟨other, call', (Function.update_of_ne heq ..).trans hcall', rfl⟩
  · cases houtcome with
    | exceeded hle => exact h.source
    | retried hlt => exact h.source
    | raised hlt => exact .inr hmem
  · intro other next hnext
    obtain hnew | hold := calls_update hnext
    · cases houtcome with
      | exceeded hle => cases hnew
      | retried hlt =>
          cases hnew
          refine ⟨hmem, fun current hpoint => ?_⟩
          cases hpoint
          exact hlt
      | raised hlt => cases hnew
    · exact h.pending other next hold

theorem Raised.step {initial : α} {r : MaximumRegister ι α} (h : Raised initial r)
    (event : Event ι α) : r.value ≤ (r.step event).value ∧ Raised initial (r.step event) := by
  cases event with
  | begin thread candidate =>
      simp only [MaximumRegister.step]
      cases hcall : r.calls thread with
      | none => exact ⟨le_rfl, h.begin hcall candidate⟩
      | some call => exact ⟨le_rfl, h⟩
  | advance thread spurious =>
      simp only [MaximumRegister.step]
      cases hcall : r.calls thread with
      | none => exact ⟨le_rfl, h⟩
      | some call =>
          exact h.advance hcall (call.step_outcome (h.pending thread call hcall).2 ..)

/-! ### Runs -/

theorem Raised.run {initial : α} {r : MaximumRegister ι α} (h : Raised initial r)
    (events : List (Event ι α)) : Raised initial (machine.run r events) :=
  machine.run_invariant (fun _ h event _ => (h.step event).2) h

/-- The register never decreases. -/
theorem Raised.value_le_run {initial : α} {r : MaximumRegister ι α} (h : Raised initial r)
    (events : List (Event ι α)) : r.value ≤ (machine.run r events).value :=
  machine.le_run (fun _ event h => h.step event) h events

end MaximumRegister

end TinyKv.Foundation
