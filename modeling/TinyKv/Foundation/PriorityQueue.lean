import Mathlib.Data.List.Sort
import Mathlib.Data.Multiset.Basic

/-!
# Priority queues up to the order of equal elements

A queue discipline fixes only which element may be on top: one that no other
element precedes. Among elements that compare equal an implementation is free.
Results stated for every `PriorityQueue` therefore hold for every tie-break.
-/

namespace TinyKv.Foundation

/-- An implementation of a priority queue together with its laws. `compare a b`
says that `a` leaves the queue after `b`, so the top never compares after another
element. -/
structure PriorityQueue (α : Type) (compare : α → α → Bool) where
  Queue : Type
  make : List α → Queue
  push : Queue → α → Queue
  top? : Queue → Option α
  pop : Queue → Queue
  elems : Queue → Multiset α
  elems_make : ∀ xs, elems (make xs) = ↑xs
  elems_push : ∀ q a, elems (push q a) = a ::ₘ elems q
  top?_eq_none : ∀ q, top? q = none ↔ elems q = 0
  elems_pop : ∀ q a, top? q = some a → elems q = a ::ₘ elems (pop q)
  top?_first : ∀ q a, top? q = some a → ∀ b ∈ elems q, compare a b = false

namespace PriorityQueue

variable {α : Type} {compare : α → α → Bool} (Q : PriorityQueue α compare)

/-- The number of stored elements. -/
def size (q : Q.Queue) : Nat := (Q.elems q).card

@[simp] theorem size_make (xs : List α) : Q.size (Q.make xs) = xs.length := by
  simp [size, Q.elems_make]

theorem size_pop {q : Q.Queue} {a : α} (h : Q.top? q = some a) :
    Q.size q = Q.size (Q.pop q) + 1 := by
  simp [size, Q.elems_pop q a h]

theorem mem_of_top? {q : Q.Queue} {a : α} (h : Q.top? q = some a) : a ∈ Q.elems q := by
  rw [Q.elems_pop q a h]
  exact Multiset.mem_cons_self a _

theorem elems_pop_le {q : Q.Queue} {a : α} (h : Q.top? q = some a) :
    Q.elems (Q.pop q) ≤ Q.elems q := by
  rw [Q.elems_pop q a h]
  exact Multiset.le_cons_self _ a

/-- A property of the top that passes to every element it precedes holds of the
whole queue, the empty queue included. -/
theorem forall_elems_of_top? {P : α → Prop} {q : Q.Queue}
    (hup : ∀ a b, compare a b = false → P a → P b)
    (htop : ∀ a, Q.top? q = some a → P a) : ∀ b ∈ Q.elems q, P b := by
  intro b hb
  cases h : Q.top? q with
  | none =>
      rw [Q.top?_eq_none] at h
      simp [h] at hb
  | some a => exact hup a b (Q.top?_first q a h b hb) (htop a h)

end PriorityQueue

section SortedList

variable {α κ : Type} [LinearOrder κ]

/-- The order in which a sorted list keeps its elements. -/
def byKey (key : α → κ) (a b : α) : Prop := key a ≤ key b

instance (key : α → κ) : DecidableRel (byKey key) := fun a b =>
  inferInstanceAs (Decidable (key a ≤ key b))

instance (key : α → κ) : Std.Total (byKey key) := ⟨fun a b => le_total (key a) (key b)⟩

instance (key : α → κ) : IsTrans α (byKey key) := ⟨fun _ _ _ => le_trans⟩

/-- The priority queue that keeps its elements in a list sorted by `key`; among
equal keys the element pushed last leaves first. -/
def PriorityQueue.sortedList (key : α → κ) :
    PriorityQueue α (fun a b => decide (key a > key b)) where
  Queue := {l : List α // l.Pairwise (byKey key)}
  make xs := ⟨xs.insertionSort (byKey key), List.pairwise_insertionSort (byKey key) xs⟩
  push q a := ⟨q.1.orderedInsert (byKey key) a, q.2.orderedInsert a q.1⟩
  top? q := q.1.head?
  pop q := ⟨q.1.tail, q.2.tail⟩
  elems q := ↑q.1
  elems_make xs := Multiset.coe_eq_coe.mpr (List.perm_insertionSort _ xs)
  elems_push q a := Multiset.coe_eq_coe.mpr (List.perm_orderedInsert _ a q.1)
  top?_eq_none q := by simp
  elems_pop q a h := by
    obtain ⟨l, hl⟩ := q
    cases l with
    | nil => simp at h
    | cons b rest =>
        simp only [List.head?_cons, Option.some.injEq] at h
        simp [h]
  top?_first q a h b hb := by
    obtain ⟨l, hl⟩ := q
    cases l with
    | nil => simp at h
    | cons c rest =>
        simp only [List.head?_cons, Option.some.injEq] at h
        subst h
        obtain rfl | hrest := List.mem_cons.mp hb
        · simp
        · simpa [byKey] using (List.pairwise_cons.mp hl).1 b hrest

end SortedList

end TinyKv.Foundation
