import Mathlib.Data.Int.CardIntervalMod
import Mathlib.Data.List.Basic

/-!
# Dealing in turn

Items that are dealt in turn to a number of places are spread evenly over them: which place
an item goes to depends only on its position, and no place gets more than one item more than
another.
-/

namespace TinyKv.Foundation

variable {α : Type}

/-- Dealing items to `places` places, when `turn` have been dealt before. -/
def deal (places : Nat) : Nat → List α → List (Nat × α)
  | _, [] => []
  | turn, item :: rest => (turn % places, item) :: deal places (turn + 1) rest

/-- The items at one place. -/
def dealtTo (place : Nat) (dealt : List (Nat × α)) : List (Nat × α) :=
  dealt.filter fun entry => entry.1 == place

@[simp] theorem length_deal (places turn : Nat) (items : List α) :
    (deal places turn items).length = items.length := by
  induction items generalizing turn with
  | nil => rfl
  | cons item rest ih => rw [deal, List.length_cons, ih, List.length_cons]

@[simp] theorem map_snd_deal (places turn : Nat) (items : List α) :
    (deal places turn items).map Prod.snd = items := by
  induction items generalizing turn with
  | nil => rfl
  | cons item rest ih => rw [deal, List.map_cons, ih]

/-- Dealing goes on where it has stopped. -/
theorem deal_append (places turn : Nat) (items more : List α) :
    deal places turn (items ++ more) =
      deal places turn items ++ deal places (turn + items.length) more := by
  induction items generalizing turn with
  | nil => rfl
  | cons item rest ih =>
      rw [List.cons_append, deal, deal, ih, List.cons_append, List.length_cons,
        Nat.add_right_comm, Nat.add_assoc turn]

/-- How many items a place gets depends only on how many are dealt; by induction from the last
item dealt. -/
theorem length_dealtTo {places place : Nat} (hplace : place < places) (items : List α) :
    (dealtTo place (deal places 0 items)).length =
      items.length / places + if place < items.length % places then 1 else 0 := by
  have hcount : (dealtTo place (deal places 0 items)).length =
      Nat.count (fun turn => turn ≡ place [MOD places]) items.length := by
    induction items using List.reverseRecOn with
    | nil => simp [deal, dealtTo]
    | append_singleton items item ih =>
        have hlast : (dealtTo place (deal places (0 + items.length) [item])).length =
            if items.length ≡ place [MOD places] then 1 else 0 := by
          simp only [deal, dealtTo, Nat.zero_add, Nat.ModEq, Nat.mod_eq_of_lt hplace]
          by_cases heq : items.length % places = place
          · simp [heq]
          · simp [heq]
        rw [deal_append, dealtTo, List.filter_append, List.length_append, List.length_append,
          List.length_singleton, Nat.count_succ, ← ih, ← hlast]
        rfl
  have hpos : 0 < places := Nat.lt_of_le_of_lt (Nat.zero_le place) hplace
  rw [hcount, Nat.count_modEq_card items.length hpos place, Nat.mod_eq_of_lt hplace]

/-- No place gets more than one item more than another. -/
theorem length_dealtTo_le {places place other : Nat} (hplace : place < places)
    (hother : other < places) (items : List α) :
    (dealtTo place (deal places 0 items)).length ≤
      (dealtTo other (deal places 0 items)).length + 1 := by
  rw [length_dealtTo hplace, length_dealtTo hother]
  split <;> omega

end TinyKv.Foundation
