import Mathlib.Data.List.Basic
import Mathlib.Data.List.Infix

/-!
# Linear ownership

A resource is acquired, adopted by owners and released by them, and disposed of. A history is
followed for one resource at a time. It is lawful when only a resource that nobody holds is
adopted, and only the owner releases one or disposes of it.
-/

namespace TinyKv.Foundation

/-- What happens to a resource; one that nobody holds is disposed of by `none`. -/
inductive OwnershipEvent (ι α : Type*) where
  | acquired (r : α)
  | adopted (owner : ι) (r : α)
  | released (owner : ι) (r : α)
  | disposed (owner : Option ι) (r : α)
deriving DecidableEq

/-- In whose hands a resource is. -/
inductive Custody (ι : Type*) where
  | unknown
  | free
  | held (owner : ι)
  | disposed
deriving DecidableEq

namespace OwnershipEvent

variable {ι α : Type*}

def resource : OwnershipEvent ι α → α
  | .acquired r => r
  | .adopted _ r => r
  | .released _ r => r
  | .disposed _ r => r

variable [DecidableEq ι] [DecidableEq α]

/-- The custody of its resource after an event, unless the event is unlawful. -/
def next (event : OwnershipEvent ι α) (custody : Custody ι) : Option (Custody ι) :=
  match event, custody with
  | .acquired _, .unknown => some .free
  | .adopted owner _, .free => some (.held owner)
  | .released owner _, .held other => if owner = other then some .free else none
  | .disposed (some owner) _, .held other => if owner = other then some .disposed else none
  | .disposed none _, .free => some .disposed
  | _, _ => none

/-- The custody of a resource after a history, unless one of its events is unlawful. -/
def custody (r : α) : Custody ι → List (OwnershipEvent ι α) → Option (Custody ι)
  | c, [] => some c
  | c, event :: rest =>
      if event.resource = r then
        (event.next c).bind fun c => custody r c rest
      else
        custody r c rest

theorem custody_append (r : α) (c : Custody ι) (events more : List (OwnershipEvent ι α)) :
    custody r c (events ++ more) = (custody r c events).bind fun c => custody r c more := by
  induction events generalizing c with
  | nil => rfl
  | cons event rest ih =>
      simp only [List.cons_append, custody]
      split
      · rw [Option.bind_assoc]
        exact Option.bind_congr fun c _ => ih c
      · exact ih c

/-- An event of another resource changes nothing. -/
theorem custody_other {r : α} {c : Custody ι} {events : List (OwnershipEvent ι α)}
    {event : OwnershipEvent ι α} (h : event.resource ≠ r) :
    custody r c (events ++ [event]) = custody r c events := by
  rw [custody_append]
  simp [custody, h]

theorem custody_next {r : α} {c c' : Custody ι} {events : List (OwnershipEvent ι α)}
    {event : OwnershipEvent ι α} (h : event.resource = r) (hbefore : custody r c events = some c') :
    custody r c (events ++ [event]) = event.next c' := by
  rw [custody_append, hbefore]
  simp [custody, h]

/-- The lawful events. -/
inductive Lawful : OwnershipEvent ι α → Custody ι → Custody ι → Prop
  | acquired (r : α) : Lawful (.acquired r) .unknown .free
  | adopted (owner : ι) (r : α) : Lawful (.adopted owner r) .free (.held owner)
  | released (owner : ι) (r : α) : Lawful (.released owner r) (.held owner) .free
  | disposed (owner : ι) (r : α) : Lawful (.disposed (some owner) r) (.held owner) .disposed
  | discarded (r : α) : Lawful (.disposed none r) .free .disposed

omit [DecidableEq α] in
theorem next_lawful {event : OwnershipEvent ι α} {c c' : Custody ι} (h : event.next c = some c') :
    Lawful event c c' := by
  unfold next at h
  split at h
  next r =>
    cases h
    exact .acquired r
  next owner r =>
    cases h
    exact .adopted owner r
  next owner r other =>
    split at h
    next heq =>
      cases h
      rw [heq]
      exact .released other r
    next hne => cases h
  next owner r other =>
    split at h
    next heq =>
      cases h
      rw [heq]
      exact .disposed other r
    next hne => cases h
  next r =>
    cases h
    exact .discarded r
  next => cases h

/-- The last event of a lawful history is of another resource, or it is lawful. -/
theorem custody_snoc {r : α} {c c' : Custody ι} {events : List (OwnershipEvent ι α)}
    {event : OwnershipEvent ι α} (h : custody r c (events ++ [event]) = some c') :
    (event.resource ≠ r ∧ custody r c events = some c') ∨
      (event.resource = r ∧ ∃ middle, custody r c events = some middle ∧
        Lawful event middle c') := by
  by_cases heq : event.resource = r
  · rw [custody_append] at h
    obtain ⟨middle, hmiddle, hlast⟩ := Option.bind_eq_some_iff.mp h
    refine .inr ⟨heq, middle, hmiddle, next_lawful ?_⟩
    simpa [custody, heq] using hlast
  · rw [custody_other heq] at h
    exact .inl ⟨heq, h⟩

/-! ### What a lawful history says -/

/-- The event disposes of the resource. -/
def disposes (r : α) : OwnershipEvent ι α → Bool
  | .disposed _ other => other = r
  | _ => false

/-- How often a resource has been disposed of. -/
def disposals (r : α) (events : List (OwnershipEvent ι α)) : Nat := events.countP (disposes r)

/-- An owner has released the resource, and nobody has adopted it again. -/
def ReleasedForGood (r : α) (events : List (OwnershipEvent ι α)) : Prop :=
  ∃ before owner after, events = before ++ .released owner r :: after ∧
    ∀ other, .adopted other r ∉ after

omit [DecidableEq ι] in
theorem disposals_snoc (r : α) (events : List (OwnershipEvent ι α)) (event : OwnershipEvent ι α) :
    disposals r (events ++ [event]) =
      disposals r events + if disposes r event = true then 1 else 0 := by
  rw [disposals, List.countP_append, List.countP_singleton]
  rfl

omit [DecidableEq ι] in
theorem disposes_other {r : α} {event : OwnershipEvent ι α} (h : event.resource ≠ r) :
    ¬ disposes r event = true := by
  cases event with
  | disposed owner other =>
      simp only [disposes, decide_eq_true_eq]
      exact h
  | acquired other => nofun
  | adopted owner other => nofun
  | released owner other => nofun

/-- A resource has been disposed of once, or not at all. -/
theorem disposals_eq {r : α} {c : Custody ι} {events : List (OwnershipEvent ι α)}
    (h : custody r .unknown events = some c) :
    disposals r events = if c = .disposed then 1 else 0 := by
  induction events using List.reverseRecOn generalizing c with
  | nil =>
      cases h
      rfl
  | append_singleton events event ih =>
      rw [disposals_snoc]
      obtain ⟨hother, hbefore⟩ | ⟨rfl, middle, hbefore, hlawful⟩ := custody_snoc h
      · rw [if_neg (disposes_other hother), ih hbefore, Nat.add_zero]
      · rw [ih hbefore]
        cases hlawful with
        | acquired r => rfl
        | adopted owner r => rfl
        | released owner r => rfl
        | disposed owner r => simp [disposes, resource]
        | discarded r => simp [disposes, resource]

omit [DecidableEq ι] [DecidableEq α] in
theorem ReleasedForGood.snoc {r : α} {events : List (OwnershipEvent ι α)}
    (h : ReleasedForGood r events) {event : OwnershipEvent ι α}
    (hevent : ∀ owner, event ≠ .adopted owner r) : ReleasedForGood r (events ++ [event]) := by
  obtain ⟨before, owner, after, rfl, hafter⟩ := h
  refine ⟨before, owner, after ++ [event], by simp, fun other hmem => ?_⟩
  obtain hmem | hlast := List.mem_append.mp hmem
  · exact hafter other hmem
  · exact hevent other (List.mem_singleton.mp hlast).symm

/-- A resource that somebody has adopted is known, and when it is free it has been released for
good. -/
theorem adopted_custody {r : α} {c : Custody ι} {events : List (OwnershipEvent ι α)} {owner : ι}
    (h : custody r .unknown events = some c) (hadopted : .adopted owner r ∈ events) :
    c ≠ .unknown ∧ (c = .free → ReleasedForGood r events) := by
  induction events using List.reverseRecOn generalizing c owner with
  | nil => exact absurd hadopted List.not_mem_nil
  | append_singleton events event ih =>
      obtain ⟨hother, hbefore⟩ | ⟨rfl, middle, hbefore, hlawful⟩ := custody_snoc h
      · have hnew (owner : ι) : event ≠ .adopted owner r := by
          rintro rfl
          exact hother rfl
        obtain hmem | hlast := List.mem_append.mp hadopted
        · obtain ⟨hknown, hfree⟩ := ih hbefore hmem
          exact ⟨hknown, fun hc => (hfree hc).snoc hnew⟩
        · exact absurd (List.mem_singleton.mp hlast).symm (hnew owner)
      · cases hlawful with
        | acquired r =>
            -- an adoption before it is not lawful
            obtain hmem | hlast := List.mem_append.mp hadopted
            · exact absurd rfl (ih hbefore hmem).1
            · cases List.mem_singleton.mp hlast
        | adopted owner r => exact ⟨nofun, nofun⟩
        | released owner r =>
            exact ⟨nofun, fun _ => ⟨events, owner, [], rfl, fun _ => List.not_mem_nil⟩⟩
        | disposed owner r => exact ⟨nofun, nofun⟩
        | discarded r => exact ⟨nofun, nofun⟩

/-- A resource that has been adopted and is held by nobody has been disposed of once, unless it
has been released for good. -/
theorem settled {r : α} {c : Custody ι} {events : List (OwnershipEvent ι α)} {owner : ι}
    (h : custody r .unknown events = some c) (hadopted : .adopted owner r ∈ events)
    (hnobody : ∀ other, c ≠ .held other) :
    disposals r events = 1 ∨ ReleasedForGood r events := by
  obtain ⟨hknown, hfree⟩ := adopted_custody h hadopted
  cases c with
  | unknown => exact absurd rfl hknown
  | free => exact .inr (hfree rfl)
  | held other => exact absurd rfl (hnobody other)
  | disposed => exact .inl (disposals_eq h)

end OwnershipEvent

end TinyKv.Foundation
