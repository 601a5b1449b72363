import Mathlib.Data.List.Nodup
import Mathlib.Data.List.Perm.Basic

/-!
# The table of open descriptors

Numbers are given out when something is opened, and used again after it has been closed.
A history of such events is accepted when no number is given out twice at a time and none
is closed that is not open; a double close is caught here even when the number has been
given out again.
-/

namespace TinyKv.Foundation

/-- What happens to a descriptor. -/
inductive DescriptorEvent (α : Type) where
  | opened (fd : α)
  | closed (fd : α)
deriving DecidableEq

namespace DescriptorEvent

variable {α : Type} [DecidableEq α]

/-- The descriptors that are open after a history, unless one of them was opened while it
was open, or one was closed while it was not. -/
def table : List α → List (DescriptorEvent α) → Option (List α)
  | fds, [] => some fds
  | fds, .opened fd :: rest => if fd ∈ fds then none else table (fd :: fds) rest
  | fds, .closed fd :: rest => if fd ∈ fds then table (fds.erase fd) rest else none

theorem table_append (fds : List α) (events more : List (DescriptorEvent α)) :
    table fds (events ++ more) = (table fds events).bind fun fds => table fds more := by
  induction events generalizing fds with
  | nil => rfl
  | cons event rest ih =>
      cases event with
      | opened fd =>
          simp only [List.cons_append, table]
          split
          · rfl
          · exact ih (fd :: fds)
      | closed fd =>
          simp only [List.cons_append, table]
          split
          · exact ih (fds.erase fd)
          · rfl

theorem table_opened {fds : List α} {fd : α} (h : fd ∉ fds) :
    table fds [.opened fd] = some (fd :: fds) := by
  simp [table, h]

/-- Open descriptors can be closed, and the others stay open. -/
theorem table_closed {closing fds rest : List α} (h : fds.Perm (closing ++ rest)) :
    ∃ fds', table fds (closing.map .closed) = some fds' ∧ fds'.Perm rest := by
  induction closing generalizing fds with
  | nil => exact ⟨fds, rfl, h⟩
  | cons fd others ih =>
      have hopen : fd ∈ fds := h.mem_iff.mpr (by simp)
      have herase : (fds.erase fd).Perm (others ++ rest) := by
        have := h.erase fd
        rwa [List.cons_append, List.erase_cons_head] at this
      obtain ⟨fds', htable, hperm⟩ := ih herase
      refine ⟨fds', ?_, hperm⟩
      rw [List.map_cons, table, if_pos hopen]
      exact htable

/-- No descriptor is open twice. -/
theorem nodup_of_table {fds fds' : List α} {events : List (DescriptorEvent α)} (h : fds.Nodup)
    (htable : table fds events = some fds') : fds'.Nodup := by
  induction events generalizing fds with
  | nil =>
      cases htable
      exact h
  | cons event rest ih =>
      cases event with
      | opened fd =>
          simp only [table] at htable
          split at htable
          · cases htable
          · next hnew => exact ih (List.nodup_cons.mpr ⟨hnew, h⟩) htable
      | closed fd =>
          simp only [table] at htable
          split at htable
          · exact ih (h.erase fd) htable
          · cases htable

/-- A descriptor has been closed as often as it has been opened, but for its being open. -/
theorem count_of_table {fds fds' : List α} {events : List (DescriptorEvent α)}
    (htable : table fds events = some fds') (fd : α) :
    fds.count fd + events.count (.opened fd) = events.count (.closed fd) + fds'.count fd := by
  induction events generalizing fds with
  | nil =>
      cases htable
      simp
  | cons event rest ih =>
      cases event with
      | opened other =>
          simp only [table] at htable
          split at htable
          · cases htable
          · have hcount := ih htable
            simp only [List.count_cons, beq_iff_eq, opened.injEq, reduceCtorEq, if_false]
              at hcount ⊢
            omega
      | closed other =>
          simp only [table] at htable
          split at htable
          · next hopen =>
            have hcount := ih htable
            have hsplit := (List.perm_cons_erase hopen).count_eq fd
            simp only [List.count_cons, beq_iff_eq, closed.injEq, reduceCtorEq, if_false]
              at hcount hsplit ⊢
            omega
          · cases htable

end DescriptorEvent

/-! ### Several owners -/

/-- One of several owners changes. -/
theorem perm_flatMap_set {α β : Type*} {owned : β → List α} {owners : List β} {i : Nat} {b b' : β}
    (hget : owners[i]? = some b) {given taken : List α}
    (h : (given ++ owned b).Perm (taken ++ owned b')) :
    (given ++ owners.flatMap owned).Perm (taken ++ (owners.set i b').flatMap owned) := by
  obtain ⟨hlt, rfl⟩ := List.getElem?_eq_some_iff.mp hget
  have hbefore : owners = owners.take i ++ owners[i] :: owners.drop (i + 1) := by simp
  have hafter : owners.set i b' = owners.take i ++ b' :: owners.drop (i + 1) := by
    rw [List.set_eq_take_append_cons_drop, if_pos hlt]
  have hmove (front : List α) (x : List α) (back : List α) (extra : List α) :
      (extra ++ (front ++ (x ++ back))).Perm (extra ++ x ++ (front ++ back)) := by
    rw [List.append_assoc]
    exact (List.perm_append_comm_assoc front x back).append_left extra
  rw [hafter]
  nth_rewrite 1 [hbefore]
  simp only [List.flatMap_append, List.flatMap_cons]
  exact (hmove ..).trans ((h.append_right _).trans (hmove ..).symm)

end TinyKv.Foundation
