import Mathlib.Data.List.Nodup
import Mathlib.Logic.Function.Basic
import Mathlib.Order.Lattice
import TinyKv.Foundation.Machine

/-!
# Linearizable objects

A history records the calls of an object and their returns, with the readings of a clock at
these moments. It is linearizable when its answers are those of the sequential object
performed in one order. That order keeps the order of calls that do not overlap, and every
operation takes effect at a clock reading between its call and its return.

A monitor protects an object by a lock and reads the clock while it holds the lock. Its
histories are linearizable, with the effects in the order of these readings.
-/

namespace TinyKv.Foundation

open scoped List

variable {ι σ υ τ ε ρ ω : Type*}

/-- The call of an operation, or its return with an answer, at a clock reading; the calls
are numbered. -/
inductive HistoryEvent (τ ε ρ : Type*) where
  | call (id : Nat) (moment : τ) (op : ε)
  | ret (id : Nat) (moment : τ) (answer : ρ)

/-- The number of a call. -/
def HistoryEvent.callId? : HistoryEvent τ ε ρ → Option Nat
  | .call id _ _ => some id
  | .ret _ _ _ => none

/-- What remains of an answer for an observer. -/
def HistoryEvent.map (view : ρ → ω) : HistoryEvent τ ε ρ → HistoryEvent τ ε ω
  | .call id moment op => .call id moment op
  | .ret id moment answer => .ret id moment (view answer)

/-- The effect of a call: the clock reading it takes place at, and the answer it gives. -/
structure Effect (τ ε ρ : Type*) where
  id : Nat
  moment : τ
  op : ε
  answer : ρ

/-- What the sequential object is given for an effect. -/
def Effect.input (e : Effect τ ε ρ) : τ × ε := (e.moment, e.op)

/-- The effect as an observer sees it. -/
def Effect.map (view : ρ → ω) (e : Effect τ ε ρ) : Effect τ ε ω :=
  ⟨e.id, e.moment, e.op, view e.answer⟩

/-- The effects in `order` account for the history: each belongs to one call and takes place
after it, each return gives the answer of an effect before it, the answers are those of the
object `T`, and a call that has returned takes effect before every later one. -/
structure Linearization [LE τ] (T : Transducer σ (τ × ε) ρ) (s : σ)
    (history : List (HistoryEvent τ ε ρ)) (order : List (Effect τ ε ρ)) : Prop where
  numbered : (history.filterMap HistoryEvent.callId?).Nodup
  once : (order.map Effect.id).Nodup
  legal : (T.run s (order.map Effect.input)).1 = order.map Effect.answer
  clock : (order.map Effect.moment).Pairwise (· ≤ ·)
  called : ∀ e ∈ order, ∃ moment ≤ e.moment, .call e.id moment e.op ∈ history
  returned : ∀ id moment answer, .ret id moment answer ∈ history →
    ∃ e ∈ order, e.id = id ∧ e.answer = answer ∧ e.moment ≤ moment
  realTime : ∀ id moment answer moment' op, ∀ e ∈ order,
    [.ret id moment answer, .call e.id moment' op] <+ history → [id, e.id] <+ order.map Effect.id

/-- An observer sees a call exactly when there is one. -/
theorem call_mem_map {view : ρ → ω} {history : List (HistoryEvent τ ε ρ)} {id : Nat} {moment : τ}
    {op : ε} : .call id moment op ∈ history.map (HistoryEvent.map view) ↔
      .call id moment op ∈ history := by
  constructor
  · intro h
    obtain ⟨event, hmem, heq⟩ := List.mem_map.mp h
    cases event with
    | call id' moment' op' =>
        cases heq
        exact hmem
    | ret id' moment' answer => cases heq
  · exact List.mem_map_of_mem

/-- An observer sees what a return leaves of its answer. -/
theorem ret_mem_map {view : ρ → ω} {history : List (HistoryEvent τ ε ρ)} {id : Nat} {moment : τ}
    {seen : ω} (h : .ret id moment seen ∈ history.map (HistoryEvent.map view)) :
    ∃ answer, .ret id moment answer ∈ history ∧ seen = view answer := by
  obtain ⟨event, hmem, heq⟩ := List.mem_map.mp h
  cases event with
  | call id' moment' op' => cases heq
  | ret id' moment' answer =>
      cases heq
      exact ⟨answer, hmem, rfl⟩

/-- Two entries of a list with a new last entry. -/
theorem pair_sublist_concat {α : Type*} {x y z : α} {l : List α} :
    [x, y] <+ l ++ [z] ↔ [x, y] <+ l ∨ x ∈ l ∧ y = z := by
  constructor
  · intro h
    obtain ⟨first, last, heq, hfirst, hlast⟩ := List.sublist_append_iff.mp h
    rcases List.sublist_singleton.mp hlast with rfl | rfl
    · rw [List.append_nil] at heq
      exact .inl (heq ▸ hfirst)
    · have hpair : [x] ++ [y] = first ++ [z] := heq
      obtain ⟨rfl, hy⟩ := List.append_inj' hpair rfl
      exact .inr ⟨List.singleton_sublist.mp hfirst, List.singleton_injective hy⟩
  · rintro (h | ⟨hx, rfl⟩)
    · exact h.trans (List.sublist_append_left l [z])
    · exact (List.singleton_sublist.mpr hx).append (List.Sublist.refl [y])

namespace Transducer

/-- The answers and the state after one more event. -/
theorem run_concat (T : Transducer σ ε ρ) (s : σ) (events : List ε) (e : ε) :
    T.run s (events ++ [e]) =
      ((T.run s events).1 ++ [(T.step (T.run s events).2 e).1],
        (T.step (T.run s events).2 e).2) := by
  induction events generalizing s with
  | nil => rfl
  | cons first rest ih =>
      have hrest := ih (T.step s first).2
      simp only [List.cons_append, run, hrest]

/-- What holds of the answer of every step, under an invariant, holds of all answers. -/
theorem run_answers (T : Transducer σ ε ρ) {I : σ → Prop} {P : ρ → Prop}
    (hstep : ∀ s, I s → ∀ e, P (T.step s e).1 ∧ I (T.step s e).2) {s : σ} (h : I s)
    (events : List ε) : ∀ answer ∈ (T.run s events).1, P answer := by
  induction events generalizing s with
  | nil => exact fun _ hmem => absurd hmem List.not_mem_nil
  | cons e rest ih =>
      obtain ⟨hanswer, hnext⟩ := hstep s h e
      intro answer hmem
      rcases List.mem_cons.mp hmem with rfl | hmem
      · exact hanswer
      · exact ih hnext answer hmem

/-- Steps that answer alike at equal clock readings, and keep a relation that may only weaken
as time goes by, give runs that answer alike when the clock does not go back. -/
theorem run_refines_timed [Preorder τ] (T : Transducer σ (τ × ε) ρ) (U : Transducer υ (τ × ε) ω)
    {view : ρ → ω} {R : τ → σ → υ → Prop}
    (hlater : ∀ {t now s u}, t ≤ now → R t s u → R now s u)
    (hstep : ∀ {now s u}, R now s u → ∀ op,
      view (T.step s (now, op)).1 = (U.step u (now, op)).1 ∧
        R now (T.step s (now, op)).2 (U.step u (now, op)).2)
    {s : σ} {u : υ} {t : τ} (h : R t s u) {events : List (τ × ε)}
    (hclock : (t :: events.map Prod.fst).Pairwise (· ≤ ·)) :
    (T.run s events).1.map view = (U.run u events).1 := by
  induction events generalizing s u t with
  | nil => rfl
  | cons e rest ih =>
      obtain ⟨now, op⟩ := e
      rw [List.map_cons, List.pairwise_cons] at hclock
      have hnow : t ≤ now := hclock.1 now (List.mem_cons_self ..)
      obtain ⟨hanswer, hnext⟩ := hstep (hlater hnow h) op
      exact congrArg₂ List.cons hanswer (ih hnext hclock.2)

end Transducer

namespace Linearization

variable {T : Transducer σ (τ × ε) ρ} {s : σ} {history : List (HistoryEvent τ ε ρ)}
  {order : List (Effect τ ε ρ)}

section Preorder

variable [Preorder τ]

/-- To an observer, an object whose answers look like those of another one can take its
place. -/
theorem refines {U : Transducer υ (τ × ε) ω} {view : ρ → ω} {u : υ} {R : τ → σ → υ → Prop}
    (hlater : ∀ {t now s u}, t ≤ now → R t s u → R now s u)
    (hstep : ∀ {now s u}, R now s u → ∀ op,
      view (T.step s (now, op)).1 = (U.step u (now, op)).1 ∧
        R now (T.step s (now, op)).2 (U.step u (now, op)).2)
    (hstart : ∀ t, R t s u) (h : Linearization T s history order) :
    Linearization U u (history.map (HistoryEvent.map view)) (order.map (Effect.map view)) := by
  have hids : (order.map (Effect.map view)).map Effect.id = order.map Effect.id := by
    rw [List.map_map]
    rfl
  have hmoments : (order.map (Effect.map view)).map Effect.moment = order.map Effect.moment := by
    rw [List.map_map]
    rfl
  constructor
  · have hcalls : (history.map (HistoryEvent.map view)).filterMap HistoryEvent.callId? =
        history.filterMap HistoryEvent.callId? := by
      rw [List.filterMap_map]
      congr 1
      ext event
      cases event <;> rfl
    rw [hcalls]
    exact h.numbered
  · rw [hids]
    exact h.once
  · calc
      _ = (U.run u (order.map Effect.input)).1 := by
        rw [List.map_map]
        rfl
      _ = (T.run s (order.map Effect.input)).1.map view := by
        symm
        cases order with
        | nil => rfl
        | cons e rest =>
            apply T.run_refines_timed U (R := R) hlater hstep (hstart e.moment)
            have hclock := h.clock
            rw [List.map_map]
            refine List.pairwise_cons.mpr ⟨fun moment hmem => ?_, hclock⟩
            rcases List.mem_cons.mp hmem with rfl | hmem
            · exact le_rfl
            · exact (List.pairwise_cons.mp hclock).1 moment hmem
      _ = _ := by
        rw [h.legal, List.map_map, List.map_map]
        rfl
  · rw [hmoments]
    exact h.clock
  · intro seen hseen
    obtain ⟨e, he, rfl⟩ := List.mem_map.mp hseen
    obtain ⟨moment, hle, hcalled⟩ := h.called e he
    exact ⟨moment, hle, call_mem_map.mpr hcalled⟩
  · intro id moment seen hseen
    obtain ⟨answer, hret, rfl⟩ := ret_mem_map hseen
    obtain ⟨e, he, hid, rfl, hle⟩ := h.returned id moment answer hret
    exact ⟨e.map view, List.mem_map_of_mem he, hid, rfl, hle⟩
  · intro id moment seen moment' op effect heffect hpair
    obtain ⟨e, he, rfl⟩ := List.mem_map.mp heffect
    obtain ⟨pair, hsub, heq⟩ := List.sublist_map_iff.mp hpair
    rw [hids]
    match pair, heq with
    | [.ret id' at' answer, .call id'' at'' op''], heq =>
        cases heq
        exact h.realTime _ _ answer _ _ e he hsub

/-- What holds of every answer of the object holds of every effect. -/
theorem answers {I : σ → Prop} {P : ρ → Prop}
    (hstep : ∀ s, I s → ∀ e, P (T.step s e).1 ∧ I (T.step s e).2) (hstart : I s)
    (h : Linearization T s history order) : ∀ e ∈ order, P e.answer := by
  intro e he
  apply T.run_answers hstep hstart (order.map Effect.input)
  rw [h.legal]
  exact List.mem_map_of_mem he

/-- A new call, which has not taken effect. -/
theorem call (h : Linearization T s history order) {id : Nat} (moment : τ) (op : ε)
    (hfresh : id ∉ history.filterMap HistoryEvent.callId?) (hpending : id ∉ order.map Effect.id) :
    Linearization T s (history ++ [.call id moment op]) order where
  numbered := by
    rw [List.filterMap_append]
    refine List.nodup_append.mpr ⟨h.numbered, List.nodup_singleton id, ?_⟩
    rintro other hother new hnew rfl
    rw [List.mem_singleton.mp hnew] at hother
    exact hfresh hother
  once := h.once
  legal := h.legal
  clock := h.clock
  called e he := by
    obtain ⟨called, hle, hmem⟩ := h.called e he
    exact ⟨called, hle, List.mem_append_left _ hmem⟩
  returned i at' answer hmem := by
    rcases List.mem_append.mp hmem with hmem | hmem
    · exact h.returned i at' answer hmem
    · cases List.mem_singleton.mp hmem
  realTime i at' answer at'' op' e he hpair := by
    rcases pair_sublist_concat.mp hpair with hpair | ⟨-, heq⟩
    · exact h.realTime i at' answer at'' op' e he hpair
    · cases heq
      exact absurd (List.mem_map_of_mem he) hpending

/-- A return with the answer of an effect. -/
theorem ret (h : Linearization T s history order) {e : Effect τ ε ρ} (he : e ∈ order) {moment : τ}
    (hle : e.moment ≤ moment) :
    Linearization T s (history ++ [.ret e.id moment e.answer]) order where
  numbered := by
    rw [List.filterMap_append]
    exact (List.append_nil _).symm ▸ h.numbered
  once := h.once
  legal := h.legal
  clock := h.clock
  called e' he' := by
    obtain ⟨called, hle', hmem⟩ := h.called e' he'
    exact ⟨called, hle', List.mem_append_left _ hmem⟩
  returned i at' answer hmem := by
    rcases List.mem_append.mp hmem with hmem | hmem
    · exact h.returned i at' answer hmem
    · cases List.mem_singleton.mp hmem
      exact ⟨e, he, rfl, rfl, hle⟩
  realTime i at' answer at'' op' e' he' hpair := by
    rcases pair_sublist_concat.mp hpair with hpair | ⟨-, heq⟩
    · exact h.realTime i at' answer at'' op' e' he' hpair
    · cases heq

/-- A pending call takes effect after all others. -/
theorem effect (h : Linearization T s history order) {e : Effect τ ε ρ} {called : τ}
    (hcalled : .call e.id called e.op ∈ history) (hle : called ≤ e.moment)
    (hpending : e.id ∉ order.map Effect.id) (hlast : ∀ e' ∈ order, e'.moment ≤ e.moment)
    (hanswer : e.answer = (T.step (T.run s (order.map Effect.input)).2 e.input).1) :
    Linearization T s history (order ++ [e]) where
  numbered := h.numbered
  once := by
    rw [List.map_append]
    refine List.nodup_append.mpr ⟨h.once, List.nodup_singleton e.id, ?_⟩
    rintro other hother new hnew rfl
    rw [List.mem_singleton.mp hnew] at hother
    exact hpending hother
  legal := by
    rw [List.map_append, List.map_append, List.map_singleton, List.map_singleton, T.run_concat,
      hanswer, h.legal]
  clock := by
    rw [List.map_append, List.pairwise_append]
    refine ⟨h.clock, List.pairwise_singleton _ _, ?_⟩
    intro first hfirst last hlast'
    obtain ⟨e', he', rfl⟩ := List.mem_map.mp hfirst
    rw [List.mem_singleton.mp hlast']
    exact hlast e' he'
  called e' he' := by
    rcases List.mem_append.mp he' with he' | he'
    · exact h.called e' he'
    · rw [List.mem_singleton.mp he']
      exact ⟨called, hle, hcalled⟩
  returned i at' answer hmem := by
    obtain ⟨e', he', heq⟩ := h.returned i at' answer hmem
    exact ⟨e', List.mem_append_left _ he', heq⟩
  realTime i at' answer at'' op' e' he' hpair := by
    rw [List.map_append]
    rcases List.mem_append.mp he' with he' | he'
    · exact (h.realTime i at' answer at'' op' e' he' hpair).trans (List.sublist_append_left ..)
    · -- what has returned has taken effect before
      have hreturned : .ret i at' answer ∈ history := hpair.subset (List.mem_cons_self ..)
      obtain ⟨first, hfirst, rfl, -⟩ := h.returned i at' answer hreturned
      rw [List.mem_singleton.mp he']
      exact pair_sublist_concat.mpr (.inr ⟨List.mem_map_of_mem hfirst, rfl⟩)

end Preorder

end Linearization

/-! ### Monitors -/

/-- A sequential object whose operations take a lock, unless they can answer at once. -/
structure GuardedObject (σ τ ε ρ : Type*) where
  object : Transducer σ (τ × ε) ρ
  early : ε → Option ρ
  early_eq : ∀ {op answer}, early op = some answer → ∀ s now,
    object.step s (now, op) = (answer, s)

/-- How far a thread has come in a call: it has begun, it has the lock, it has read the clock,
it has performed the operation, it has released the lock. -/
inductive CallPoint (τ ε ρ : Type*) where
  | idle
  | called (id : Nat) (op : ε)
  | locked (id : Nat) (op : ε)
  | timed (id : Nat) (op : ε) (now : τ)
  | acted (id : Nat) (answer : ρ)
  | released (id : Nat) (answer : ρ)

namespace CallPoint

/-- The thread holds the lock. -/
def holding : CallPoint τ ε ρ → Bool
  | locked _ _ | timed _ _ _ | acted _ _ => true
  | _ => false

/-- The number of the call. -/
def id? : CallPoint τ ε ρ → Option Nat
  | idle => none
  | called id _ | locked id _ | timed id _ _ | acted id _ | released id _ => some id

end CallPoint

/-- An object with its lock, the clock, and the threads that use it. Moreover the number of
calls so far, their history, and their effects. -/
structure Monitor (ι σ τ ε ρ : Type*) where
  object : σ
  clock : τ
  holder : Option ι := none
  point : ι → CallPoint τ ε ρ := fun _ => .idle
  calls : Nat := 0
  history : List (HistoryEvent τ ε ρ) := []
  order : List (Effect τ ε ρ) := []

namespace Monitor

/-- The steps: the clock advances, a thread begins a call, a thread goes on with its call. -/
inductive Action (ι τ ε : Type*) where
  | tick (reading : τ)
  | call (thread : ι) (op : ε)
  | advance (thread : ι)

section Steps

variable [DecidableEq ι] [LinearOrder τ] (G : GuardedObject σ τ ε ρ)

/-- The answer of the object to an operation, and the object after it. -/
def answer (m : Monitor ι σ τ ε ρ) (now : τ) (op : ε) : ρ × σ := G.object.step m.object (now, op)

/-- The next step of a call; it waits for the lock. -/
def advance (m : Monitor ι σ τ ε ρ) (thread : ι) : Monitor ι σ τ ε ρ :=
  match m.point thread with
  | .idle => m
  | .called id op =>
      match G.early op with
      | some answer =>
          { m with
            point := Function.update m.point thread (.released id answer)
            order := m.order ++ [⟨id, m.clock, op, answer⟩] }
      | none =>
          match m.holder with
          | some _ => m
          | none =>
              { m with
                point := Function.update m.point thread (.locked id op)
                holder := some thread }
  | .locked id op =>
      { m with
        point := Function.update m.point thread (.timed id op m.clock)
        order := m.order ++ [⟨id, m.clock, op, (m.answer G m.clock op).1⟩] }
  | .timed id op now =>
      { m with
        point := Function.update m.point thread (.acted id (m.answer G now op).1)
        object := (m.answer G now op).2 }
  | .acted id answer =>
      { m with
        point := Function.update m.point thread (.released id answer)
        holder := none }
  | .released id answer =>
      { m with
        point := Function.update m.point thread .idle
        history := m.history ++ [.ret id m.clock answer] }

/-- One step. A thread begins a call when its last one has returned. -/
def step (m : Monitor ι σ τ ε ρ) : Action ι τ ε → Monitor ι σ τ ε ρ
  | .tick reading => { m with clock := max m.clock reading }
  | .call thread op =>
      match m.point thread with
      | .idle =>
          { m with
            point := Function.update m.point thread (.called m.calls op)
            calls := m.calls + 1
            history := m.history ++ [.call m.calls m.clock op] }
      | _ => m
  | .advance thread => m.advance G thread

/-- The interleavings. -/
def machine : Machine (Monitor ι σ τ ε ρ) (Action ι τ ε) := ⟨step G⟩

/-- What a step can do. -/
inductive Change (m : Monitor ι σ τ ε ρ) : Monitor ι σ τ ε ρ → Prop where
  | wait : Change m m
  | tick (reading : τ) (later : m.clock ≤ reading) : Change m { m with clock := reading }
  | call (thread : ι) (op : ε) (idle : m.point thread = .idle) :
      Change m { m with
        point := Function.update m.point thread (.called m.calls op)
        calls := m.calls + 1
        history := m.history ++ [.call m.calls m.clock op] }
  | early (thread : ι) (id : Nat) (op : ε) (answer : ρ) (called : m.point thread = .called id op)
      (early : G.early op = some answer) :
      Change m { m with
        point := Function.update m.point thread (.released id answer)
        order := m.order ++ [⟨id, m.clock, op, answer⟩] }
  | lock (thread : ι) (id : Nat) (op : ε) (called : m.point thread = .called id op)
      (free : m.holder = none) :
      Change m { m with
        point := Function.update m.point thread (.locked id op)
        holder := some thread }
  | read (thread : ι) (id : Nat) (op : ε) (locked : m.point thread = .locked id op) :
      Change m { m with
        point := Function.update m.point thread (.timed id op m.clock)
        order := m.order ++ [⟨id, m.clock, op, (m.answer G m.clock op).1⟩] }
  | act (thread : ι) (id : Nat) (op : ε) (now : τ) (timed : m.point thread = .timed id op now) :
      Change m { m with
        point := Function.update m.point thread (.acted id (m.answer G now op).1)
        object := (m.answer G now op).2 }
  | unlock (thread : ι) (id : Nat) (answer : ρ) (acted : m.point thread = .acted id answer) :
      Change m { m with
        point := Function.update m.point thread (.released id answer)
        holder := none }
  | ret (thread : ι) (id : Nat) (answer : ρ) (released : m.point thread = .released id answer) :
      Change m { m with
        point := Function.update m.point thread .idle
        history := m.history ++ [.ret id m.clock answer] }

theorem advance_change (m : Monitor ι σ τ ε ρ) (thread : ι) : Change G m (m.advance G thread) := by
  unfold advance
  cases hpoint : m.point thread with
  | idle => exact .wait
  | called id op =>
      cases hearly : G.early op with
      | some answer =>
          simp only [hearly]
          exact .early thread id op answer hpoint hearly
      | none =>
          simp only [hearly]
          split
          · exact .wait
          · exact .lock thread id op hpoint ‹_›
  | locked id op => exact .read thread id op hpoint
  | timed id op now => exact .act thread id op now hpoint
  | acted id answer => exact .unlock thread id answer hpoint
  | released id answer => exact .ret thread id answer hpoint

theorem step_change (m : Monitor ι σ τ ε ρ) (a : Action ι τ ε) : Change G m (step G m a) := by
  cases a with
  | tick reading => exact .tick _ (le_max_left ..)
  | call thread op =>
      simp only [step]
      split
      · exact .call thread op ‹_›
      · exact .wait
  | advance thread => exact m.advance_change G thread

/-! ### Mutual exclusion -/

/-- The lock is held by the thread that is between taking and releasing it. -/
def Exclusive (m : Monitor ι σ τ ε ρ) : Prop :=
  ∀ i, (m.point i).holding = true ↔ m.holder = some i

omit [LinearOrder τ] in
/-- One thread comes to a point at which it holds the lock as the new holder says. -/
theorem Exclusive.update {m m' : Monitor ι σ τ ε ρ} {thread : ι} {point : CallPoint τ ε ρ}
    (h : m.Exclusive) (hpoint : m'.point = Function.update m.point thread point)
    (hself : point.holding = true ↔ m'.holder = some thread)
    (hothers : ∀ i, i ≠ thread → (m.holder = some i ↔ m'.holder = some i)) : m'.Exclusive := by
  intro i
  rw [hpoint]
  by_cases hi : i = thread
  · subst hi
    rw [Function.update_self]
    exact hself
  · rw [Function.update_of_ne hi]
    exact (h i).trans (hothers i hi)

variable {G}

theorem Exclusive.change {m m' : Monitor ι σ τ ε ρ} (h : m.Exclusive) (hchange : Change G m m') :
    m'.Exclusive := by
  induction hchange with
  | wait => exact h
  | tick reading later => exact h
  | call thread op idle =>
      have hself := h thread
      rw [idle] at hself
      exact h.update rfl hself fun _ _ => Iff.rfl
  | early thread id op answer called early =>
      have hself := h thread
      rw [called] at hself
      exact h.update rfl hself fun _ _ => Iff.rfl
  | lock thread id op called free =>
      refine h.update rfl (iff_of_true rfl rfl) fun i hi => ?_
      rw [free]
      exact iff_of_false nofun fun heq => hi (Option.some.inj heq).symm
  | read thread id op locked =>
      have hself := h thread
      rw [locked] at hself
      exact h.update rfl hself fun _ _ => Iff.rfl
  | act thread id op now timed =>
      have hself := h thread
      rw [timed] at hself
      exact h.update rfl hself fun _ _ => Iff.rfl
  | unlock thread id answer acted =>
      have hholder : m.holder = some thread := (h thread).mp (by rw [acted]; rfl)
      refine h.update rfl (iff_of_false nofun nofun) fun i hi => ?_
      rw [hholder]
      exact iff_of_false (fun heq => hi (Option.some.inj heq).symm) nofun
  | ret thread id answer released =>
      have hself := h thread
      rw [released] at hself
      exact h.update rfl hself fun _ _ => Iff.rfl

omit [DecidableEq ι] [LinearOrder τ] in
/-- Two threads never hold the lock at once. -/
theorem Exclusive.unique {m : Monitor ι σ τ ε ρ} (h : m.Exclusive) {i j : ι}
    (hi : (m.point i).holding = true) (hj : (m.point j).holding = true) : i = j :=
  Option.some.inj (((h i).mp hi).symm.trans ((h j).mp hj))

/-! ### The numbers of the calls -/

/-- The calls under way have different numbers, and every number has been given. -/
structure Numbered (m : Monitor ι σ τ ε ρ) : Prop where
  apart : ∀ i j, ∀ id ∈ (m.point i).id?, id ∈ (m.point j).id? → i = j
  given : ∀ i, ∀ id ∈ (m.point i).id?, id < m.calls
  history : ∀ id ∈ m.history.filterMap HistoryEvent.callId?, id < m.calls

omit [LinearOrder τ] in
/-- A thread comes to another point of its call. -/
theorem Numbered.update {m m' : Monitor ι σ τ ε ρ} {thread : ι} {point : CallPoint τ ε ρ}
    (h : m.Numbered) (hpoint : m'.point = Function.update m.point thread point)
    (hid : ∀ id ∈ point.id?, id ∈ (m.point thread).id?) (hcalls : m'.calls = m.calls)
    (hhistory : m'.history.filterMap HistoryEvent.callId? =
      m.history.filterMap HistoryEvent.callId?) : m'.Numbered := by
  have hsub : ∀ i, ∀ id ∈ (m'.point i).id?, id ∈ (m.point i).id? := by
    intro i id hmem
    rw [hpoint] at hmem
    by_cases hi : i = thread
    · subst hi
      rw [Function.update_self] at hmem
      exact hid id hmem
    · rwa [Function.update_of_ne hi] at hmem
  constructor
  · intro i j id hi hj
    exact h.apart i j id (hsub i id hi) (hsub j id hj)
  · intro i id hi
    rw [hcalls]
    exact h.given i id (hsub i id hi)
  · intro id hmem
    rw [hhistory] at hmem
    rw [hcalls]
    exact h.history id hmem

theorem Numbered.change {m m' : Monitor ι σ τ ε ρ} (h : m.Numbered) (hchange : Change G m m') :
    m'.Numbered := by
  induction hchange with
  | wait => exact h
  | tick reading later => exact ⟨h.apart, h.given, h.history⟩
  | call thread op idle =>
      have hold : ∀ i, i ≠ thread → (m.point i).id? ≠ some m.calls := by
        intro i _ hid
        exact lt_irrefl _ (h.given i m.calls hid)
      constructor
      · intro i j id hi hj
        dsimp only at hi hj
        by_cases hit : i = thread <;> by_cases hjt : j = thread
        · rw [hit, hjt]
        · rw [hit, Function.update_self] at hi
          rw [Function.update_of_ne hjt] at hj
          exact absurd (hj.trans hi.symm) (hold j hjt)
        · rw [hjt, Function.update_self] at hj
          rw [Function.update_of_ne hit] at hi
          exact absurd (hi.trans hj.symm) (hold i hit)
        · rw [Function.update_of_ne hit] at hi
          rw [Function.update_of_ne hjt] at hj
          exact h.apart i j id hi hj
      · intro i id hi
        dsimp only at hi ⊢
        by_cases hit : i = thread
        · rw [hit, Function.update_self] at hi
          have hid : m.calls = id := Option.some.inj hi
          omega
        · rw [Function.update_of_ne hit] at hi
          exact Nat.lt_succ_of_lt (h.given i id hi)
      · intro id hmem
        rw [List.filterMap_append, List.mem_append] at hmem
        rcases hmem with hmem | hmem
        · exact Nat.lt_succ_of_lt (h.history id hmem)
        · rw [List.mem_singleton.mp hmem]
          exact Nat.lt_succ_self _
  | early thread id op answer called early =>
      exact h.update rfl (by rw [called]; simp [CallPoint.id?]) rfl rfl
  | lock thread id op called free =>
      exact h.update rfl (by rw [called]; simp [CallPoint.id?]) rfl rfl
  | read thread id op locked => exact h.update rfl (by rw [locked]; simp [CallPoint.id?]) rfl rfl
  | act thread id op now timed => exact h.update rfl (by rw [timed]; simp [CallPoint.id?]) rfl rfl
  | unlock thread id answer acted =>
      exact h.update rfl (by rw [acted]; simp [CallPoint.id?]) rfl rfl
  | ret thread id answer released =>
      refine h.update rfl nofun rfl ?_
      rw [List.filterMap_append]
      exact List.append_nil _

/-! ### The effects of the calls -/

variable (G)

/-- The object once the operation that has read the clock is done. -/
def committed (m : Monitor ι σ τ ε ρ) : σ :=
  match m.holder.map m.point with
  | some (.timed _ op now) => (m.answer G now op).2
  | _ => m.object

/-- What is known of a call at each of its points. It takes effect when it reads the clock
or answers early. -/
def Accounted (m : Monitor ι σ τ ε ρ) : CallPoint τ ε ρ → Prop
  | .idle => True
  | .called id op | .locked id op =>
      id ∉ m.order.map Effect.id ∧ ∃ moment ≤ m.clock, .call id moment op ∈ m.history
  | .timed id op now => ⟨id, now, op, (m.answer G now op).1⟩ ∈ m.order
  | .acted id answer | .released id answer => ∃ e ∈ m.order, e.id = id ∧ e.answer = answer

/-- The effects so far account for the history, and lead to the object. -/
structure Accounts (s : σ) (m : Monitor ι σ τ ε ρ) : Prop where
  linear : Linearization G.object s m.history m.order
  committed : (G.object.run s (m.order.map Effect.input)).2 = m.committed G
  past : ∀ e ∈ m.order, e.moment ≤ m.clock
  accounted : ∀ i, m.Accounted G (m.point i)

variable {G}

omit [LinearOrder τ] in
/-- A thread without the lock leaves the object to the others. -/
theorem committed_update {m m' : Monitor ι σ τ ε ρ} {thread : ι} {point : CallPoint τ ε ρ}
    (hpoint : m'.point = Function.update m.point thread point) (hobject : m'.object = m.object)
    (hholder : m'.holder = m.holder) (hfree : m.holder ≠ some thread) :
    m.committed G = m'.committed G := by
  have hsame : m'.holder.map m'.point = m.holder.map m.point := by
    rw [hholder, hpoint]
    cases hm : m.holder with
    | none => rfl
    | some other =>
        have hother : other ≠ thread := fun heq => hfree (hm.trans (congrArg some heq))
        simp only [Option.map_some, Function.update_of_ne hother]
  simp only [committed, hsame, Monitor.answer, hobject]

omit [DecidableEq ι] in
/-- What is known of a call stays known while other threads take steps. -/
theorem Accounted.later {m m' : Monitor ι σ τ ε ρ} {point : CallPoint τ ε ρ}
    (h : m.Accounted G point) (hclock : m.clock ≤ m'.clock) (hhistory : m.history ⊆ m'.history)
    (horder : m.order ⊆ m'.order)
    (hpending : ∀ id ∈ point.id?, id ∈ m'.order.map Effect.id → id ∈ m.order.map Effect.id)
    (hobject : point.holding = true → m'.object = m.object) : m'.Accounted G point := by
  cases point with
  | idle => trivial
  | called id op | locked id op =>
      obtain ⟨hfresh, moment, hle, hcalled⟩ := h
      exact ⟨fun hmem => hfresh (hpending id rfl hmem), moment, hle.trans hclock, hhistory hcalled⟩
  | timed id op now =>
      have hmem := horder h
      rwa [Monitor.answer, ← hobject rfl] at hmem
  | acted id answer | released id answer =>
      obtain ⟨e, he, hid, hanswer⟩ := h
      exact ⟨e, horder he, hid, hanswer⟩

/-- One thread takes a step, the others stay where they are. -/
theorem accounted_update {m m' : Monitor ι σ τ ε ρ} {thread : ι} {point : CallPoint τ ε ρ}
    (h : ∀ i, m.Accounted G (m.point i)) (hpoint : m'.point = Function.update m.point thread point)
    (hself : m'.Accounted G point)
    (hothers : ∀ i, i ≠ thread → m.Accounted G (m.point i) → m'.Accounted G (m.point i)) (i : ι) :
    m'.Accounted G (m'.point i) := by
  rw [hpoint]
  by_cases hi : i = thread
  · rw [hi, Function.update_self]
    exact hself
  · rw [Function.update_of_ne hi]
    exact hothers i hi (h i)

omit [DecidableEq ι] in
/-- A pending call takes effect now. -/
theorem Accounts.effect {s : σ} {m : Monitor ι σ τ ε ρ} (h : m.Accounts G s) {id : Nat} {op : ε}
    {answer : ρ} (hpending : id ∉ m.order.map Effect.id)
    (hcalled : ∃ moment ≤ m.clock, .call id moment op ∈ m.history)
    (hanswer : answer = (G.object.step (m.committed G) (m.clock, op)).1) :
    Linearization G.object s m.history (m.order ++ [⟨id, m.clock, op, answer⟩]) := by
  obtain ⟨called, hle, hmem⟩ := hcalled
  apply h.linear.effect hmem hle hpending h.past
  rw [h.committed]
  exact hanswer

omit [DecidableEq ι] [LinearOrder τ] in
/-- The effect of a call under way is not that of another one. -/
theorem Numbered.mem_of_concat {m : Monitor ι σ τ ε ρ} (h : m.Numbered) {i thread : ι}
    (hi : i ≠ thread) {e : Effect τ ε ρ} (he : e.id ∈ (m.point thread).id?) :
    ∀ id ∈ (m.point i).id?, id ∈ (m.order ++ [e]).map Effect.id → id ∈ m.order.map Effect.id := by
  intro id hid hmem
  rw [List.map_append, List.mem_append] at hmem
  rcases hmem with hmem | hmem
  · exact hmem
  · rw [List.map_singleton, List.mem_singleton] at hmem
    exact absurd (h.apart i thread id hid (hmem ▸ he)) hi

omit [DecidableEq ι] in
/-- The object after one more effect. -/
theorem Accounts.committed_concat {s : σ} {m : Monitor ι σ τ ε ρ} (h : m.Accounts G s)
    (e : Effect τ ε ρ) :
    (G.object.run s ((m.order ++ [e]).map Effect.input)).2 =
      (G.object.step (m.committed G) e.input).2 := by
  rw [List.map_append, List.map_singleton, Transducer.run_concat, h.committed]

omit [DecidableEq ι] in
/-- The effects are those of the past, also with one that takes place now. -/
theorem Accounts.past_concat {s : σ} {m : Monitor ι σ τ ε ρ} (h : m.Accounts G s) (id : Nat)
    (op : ε) (answer : ρ) :
    ∀ e ∈ m.order ++ [⟨id, m.clock, op, answer⟩], e.moment ≤ m.clock := by
  intro e he
  rcases List.mem_append.mp he with he | he
  · exact h.past e he
  · rw [List.mem_singleton.mp he]

theorem Accounts.change {s : σ} {m m' : Monitor ι σ τ ε ρ} (h : m.Accounts G s)
    (hexclusive : m.Exclusive) (hnumbered : m.Numbered) (hchange : Change G m m') :
    m'.Accounts G s := by
  -- a thread that is not in its critical section is not the holder
  have hfree : ∀ {thread}, (m.point thread).holding = false → m.holder ≠ some thread := by
    intro thread hpoint hholder
    rw [(hexclusive thread).mpr hholder] at hpoint
    cases hpoint
  cases hchange with
  | wait => exact h
  | tick reading later =>
      refine ⟨h.linear, h.committed, fun e he => (h.past e he).trans later, fun i => ?_⟩
      exact (h.accounted i).later later (List.Subset.refl _) (List.Subset.refl _)
        (fun _ _ hmem => hmem) fun _ => rfl
  | call thread op idle =>
      have hfresh : m.calls ∉ m.history.filterMap HistoryEvent.callId? :=
        fun hmem => lt_irrefl _ (hnumbered.history m.calls hmem)
      have hpending : m.calls ∉ m.order.map Effect.id := by
        intro hmem
        obtain ⟨e, he, hid⟩ := List.mem_map.mp hmem
        obtain ⟨moment, -, hcalled⟩ := h.linear.called e he
        exact hfresh (List.mem_filterMap.mpr ⟨_, hcalled, congrArg some hid⟩)
      constructor
      · exact h.linear.call m.clock op hfresh hpending
      · exact h.committed.trans (committed_update rfl rfl rfl (hfree (by rw [idle]; rfl)))
      · exact h.past
      · apply accounted_update h.accounted rfl
        · exact ⟨hpending, m.clock, le_rfl, List.mem_append_right _ (List.mem_singleton_self _)⟩
        · intro i _ hi
          exact hi.later le_rfl (List.subset_append_left _ _) (List.Subset.refl _)
            (fun _ _ hmem => hmem) fun _ => rfl
  | early thread id op answer called early =>
      have hself := h.accounted thread
      rw [called] at hself
      have hstep := G.early_eq early (m.committed G) m.clock
      constructor
      · exact h.effect hself.1 hself.2 (congrArg Prod.fst hstep).symm
      · have hsame := (h.committed_concat ⟨id, m.clock, op, answer⟩).trans (congrArg Prod.snd hstep)
        exact hsame.trans (committed_update rfl rfl rfl (hfree (by rw [called]; rfl)))
      · exact h.past_concat id op answer
      · apply accounted_update h.accounted rfl
        · exact ⟨_, List.mem_append_right _ (List.mem_singleton_self _), rfl, rfl⟩
        · intro i hi hother
          exact hother.later le_rfl (List.Subset.refl _) (List.subset_append_left _ _)
            (hnumbered.mem_of_concat hi (by rw [called]; rfl)) fun _ => rfl
  | lock thread id op called free =>
      have hself := h.accounted thread
      rw [called] at hself
      constructor
      · exact h.linear
      · apply h.committed.trans
        simp only [Monitor.committed, free, Option.map_none, Option.map_some,
          Function.update_self]
      · exact h.past
      · refine accounted_update h.accounted rfl ?_ fun i _ hother => ?_
        · exact hself
        exact hother.later le_rfl (List.Subset.refl _) (List.Subset.refl _)
          (fun _ _ hmem => hmem) fun _ => rfl
  | read thread id op locked =>
      have hself := h.accounted thread
      rw [locked] at hself
      have hholder : m.holder = some thread := (hexclusive thread).mp (by rw [locked]; rfl)
      have hcommitted : m.committed G = m.object := by
        simp only [Monitor.committed, hholder, Option.map_some, locked]
      constructor
      · apply h.effect hself.1 hself.2
        rw [hcommitted]
        rfl
      · calc
          _ = (m.answer G m.clock op).2 := by
            rw [Monitor.answer, ← hcommitted]
            exact h.committed_concat _
          _ = _ := by
            simp only [Monitor.committed, hholder, Option.map_some, Function.update_self]
            rfl
      · exact h.past_concat id op _
      · apply accounted_update h.accounted rfl
        · exact List.mem_append_right _ (List.mem_singleton_self _)
        · intro i hi hother
          exact hother.later le_rfl (List.Subset.refl _) (List.subset_append_left _ _)
            (hnumbered.mem_of_concat hi (by rw [locked]; rfl)) fun _ => rfl
  | act thread id op now timed =>
      have hself := h.accounted thread
      rw [timed] at hself
      have hholding : (m.point thread).holding = true := by rw [timed]; rfl
      have hholder : m.holder = some thread := (hexclusive thread).mp hholding
      constructor
      · exact h.linear
      · apply h.committed.trans
        simp only [Monitor.committed, hholder, Option.map_some, timed,
          Function.update_self]
      · exact h.past
      · apply accounted_update h.accounted rfl
        · exact ⟨_, hself, rfl, rfl⟩
        · intro i hi hother
          exact hother.later le_rfl (List.Subset.refl _) (List.Subset.refl _)
            (fun _ _ hmem => hmem) fun hheld => absurd (hexclusive.unique hheld hholding) hi
  | unlock thread id answer acted =>
      have hself := h.accounted thread
      rw [acted] at hself
      have hholder : m.holder = some thread := (hexclusive thread).mp (by rw [acted]; rfl)
      constructor
      · exact h.linear
      · apply h.committed.trans
        simp only [Monitor.committed, hholder, Option.map_some, Option.map_none, acted]
      · exact h.past
      · refine accounted_update h.accounted rfl ?_ fun i _ hother => ?_
        · exact hself
        exact hother.later le_rfl (List.Subset.refl _) (List.Subset.refl _)
          (fun _ _ hmem => hmem) fun _ => rfl
  | ret thread id answer released =>
      have hself := h.accounted thread
      rw [released] at hself
      obtain ⟨e, he, rfl, rfl⟩ := hself
      constructor
      · exact h.linear.ret he (h.past e he)
      · exact h.committed.trans (committed_update rfl rfl rfl (hfree (by rw [released]; rfl)))
      · exact h.past
      · refine accounted_update h.accounted rfl trivial fun i _ hother => ?_
        exact hother.later le_rfl (List.subset_append_left _ _) (List.Subset.refl _)
          (fun _ _ hmem => hmem) fun _ => rfl

/-! ### Runs -/

/-- What holds between the steps. -/
structure Invariant (G : GuardedObject σ τ ε ρ) (s : σ) (m : Monitor ι σ τ ε ρ) : Prop where
  exclusive : m.Exclusive
  numbered : m.Numbered
  accounts : m.Accounts G s

omit [DecidableEq ι] in
/-- No call has begun. -/
theorem invariant_start (G : GuardedObject σ τ ε ρ) (s : σ) (clock : τ) :
    Invariant G s ({ object := s, clock } : Monitor ι σ τ ε ρ) where
  exclusive _ := iff_of_false nofun nofun
  numbered := ⟨nofun, nofun, nofun⟩
  accounts :=
    { linear := ⟨List.nodup_nil, List.nodup_nil, rfl, .nil, nofun, nofun, nofun⟩
      committed := rfl
      past := nofun
      accounted := fun _ => trivial }

theorem Invariant.step {s : σ} {m : Monitor ι σ τ ε ρ} (h : Invariant G s m) (a : Action ι τ ε) :
    Invariant G s (Monitor.step G m a) where
  exclusive := h.exclusive.change (m.step_change G a)
  numbered := h.numbered.change (m.step_change G a)
  accounts := h.accounts.change h.exclusive h.numbered (m.step_change G a)

theorem Invariant.run {s : σ} {m : Monitor ι σ τ ε ρ} (h : Invariant G s m)
    (actions : List (Action ι τ ε)) : Invariant G s ((machine G).run m actions) :=
  (machine G).run_invariant (fun _ hm a _ => hm.step a) h

/-- Every history of a monitor is linearizable. -/
theorem linearizable (G : GuardedObject σ τ ε ρ) (s : σ) (clock : τ)
    (actions : List (Action ι τ ε)) :
    Linearization G.object s ((machine G).run { object := s, clock } actions).history
      ((machine G).run { object := s, clock } actions).order :=
  ((invariant_start G s clock).run actions).accounts.linear

end Steps

end Monitor

end TinyKv.Foundation
