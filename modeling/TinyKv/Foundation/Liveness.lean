import Mathlib.Order.Lattice
import Mathlib.Order.WellFounded
import Mathlib.Order.Nat
import TinyKv.Foundation.Machine

/-!
# Progress of endless executions

An execution of a machine goes on for ever; which parties move when is left open, apart from
what is assumed to recur. A state leads to another when the second is met at some later time.
A step that helps, and recurs, ends a phase; a rank that every phase lowers ends the phases.
-/

namespace TinyKv.Foundation

variable {σ ε : Type*}

/-- The states and the events of a machine that never stops. -/
structure Execution (M : Machine σ ε) where
  state : Nat → σ
  event : Nat → ε
  next : ∀ n, state (n + 1) = M.step (state n) (event n)

namespace Execution

/-- The execution from a state under a schedule. -/
def under (M : Machine σ ε) (s : σ) (schedule : Nat → ε) : Execution M where
  state n := M.run s ((List.range n).map schedule)
  event := schedule
  next n := by
    rw [List.range_succ, List.map_append, Machine.run_append]
    rfl

variable {M : Machine σ ε} (x : Execution M)

/-- The execution from some time on. -/
def drop (k : Nat) : Execution M where
  state n := x.state (k + n)
  event n := x.event (k + n)
  next n := x.next (k + n)

/-- Something is the case again and again. -/
def Recurs (C : σ → ε → Prop) : Prop := ∀ n, ∃ m ≥ n, C (x.state m) (x.event m)

/-- From now on, something is the case. -/
def Settles (C : σ → ε → Prop) : Prop := ∃ n, ∀ m ≥ n, C (x.state m) (x.event m)

/-- Whenever the execution is at `P`, it is at `Q` then or later. -/
def LeadsTo (P Q : σ → Prop) : Prop := ∀ n, P (x.state n) → ∃ m ≥ n, Q (x.state m)

variable {x} {P Q R : σ → Prop}

/-- An invariant of the steps. -/
theorem invariant {I : σ → Prop} (hstep : ∀ s e, I s → I (M.step s e)) (h : I (x.state 0))
    (n : Nat) : I (x.state n) := by
  induction n with
  | zero => exact h
  | succ n ih =>
      rw [x.next]
      exact hstep _ _ ih

/-- What the steps keep holds from the time on at which it sets in. -/
theorem later {I : σ → Prop} (hstep : ∀ s e, I s → I (M.step s e)) {n : Nat}
    (h : I (x.state n)) : ∀ m ≥ n, I (x.state m) := by
  intro m hm
  induction m, hm using Nat.le_induction with
  | base => exact h
  | succ m hm ih =>
      rw [x.next]
      exact hstep _ _ ih

/-- What recurs keeps recurring when something else has settled. -/
theorem Recurs.and_settles {C D : σ → ε → Prop} (h : x.Recurs C) (hsettles : x.Settles D) :
    x.Recurs fun s e => C s e ∧ D s e := by
  intro n
  obtain ⟨start, hstart⟩ := hsettles
  obtain ⟨m, hm, hc⟩ := h (max n start)
  exact ⟨m, le_trans (le_max_left ..) hm, hc, hstart m (le_trans (le_max_right ..) hm)⟩

theorem Recurs.drop {C : σ → ε → Prop} (h : x.Recurs C) (k : Nat) : (x.drop k).Recurs C := by
  intro n
  obtain ⟨m, hm, hc⟩ := h (k + n)
  obtain ⟨d, rfl⟩ := Nat.exists_eq_add_of_le (le_trans (Nat.le_add_right k n) hm)
  exact ⟨d, by omega, hc⟩

/-- A phase goes on, or has ended. -/
theorem phase (hstays : ∀ n, P (x.state n) → P (x.state (n + 1)) ∨ Q (x.state (n + 1))) {n : Nat}
    (hp : P (x.state n)) (d : Nat) : (∃ m ≥ n, Q (x.state m)) ∨ P (x.state (n + d)) := by
  induction d with
  | zero => exact .inr hp
  | succ d ih =>
      rcases ih with hdone | hpd
      · exact .inl hdone
      · rcases hstays (n + d) hpd with hnext | hdone
        · exact .inr hnext
        · exact .inl ⟨n + d + 1, by omega, hdone⟩

/-- A phase that ends if it lasts until some time. -/
theorem LeadsTo.of_drop {k : Nat}
    (hstays : ∀ n, P (x.state n) → P (x.state (n + 1)) ∨ Q (x.state (n + 1)))
    (h : (x.drop k).LeadsTo P Q) : x.LeadsTo P Q := by
  intro n hp
  rcases phase hstays hp k with hdone | hpk
  · exact hdone
  · obtain ⟨m, hm, hq⟩ := h n (by simpa only [drop, Nat.add_comm] using hpk)
    exact ⟨k + m, by omega, hq⟩

theorem LeadsTo.of_imp (h : ∀ n, P (x.state n) → Q (x.state n)) : x.LeadsTo P Q :=
  fun n hp => ⟨n, le_rfl, h n hp⟩

theorem LeadsTo.of_cases {E : σ → Prop} (h : x.LeadsTo (fun s => P s ∧ E s) Q)
    (h' : x.LeadsTo (fun s => P s ∧ ¬ E s) Q) : x.LeadsTo P Q := by
  intro n hp
  by_cases he : E (x.state n)
  · exact h n ⟨hp, he⟩
  · exact h' n ⟨hp, he⟩

theorem LeadsTo.trans (h : x.LeadsTo P Q) (h' : x.LeadsTo Q R) : x.LeadsTo P R := by
  intro n hp
  obtain ⟨m, hm, hq⟩ := h n hp
  obtain ⟨k, hk, hr⟩ := h' m hq
  exact ⟨k, le_trans hm hk, hr⟩

/-- A phase lasts until a step that helps, and such steps recur. -/
theorem LeadsTo.of_step {C : σ → ε → Prop} (hrecurs : x.Recurs C)
    (hstays : ∀ n, P (x.state n) → P (x.state (n + 1)) ∨ Q (x.state (n + 1)))
    (hhelps : ∀ n, P (x.state n) → C (x.state n) (x.event n) → Q (x.state (n + 1))) :
    x.LeadsTo P Q := by
  intro n hp
  obtain ⟨m, hm, hc⟩ := hrecurs n
  obtain ⟨d, rfl⟩ := Nat.exists_eq_add_of_le hm
  rcases phase hstays hp d with hdone | hpm
  · exact hdone
  · exact ⟨n + d + 1, by omega, hhelps (n + d) hpm hc⟩

/-- A phase lasts until a step that helps; where it can be taken again and again, it is taken
again and again, and the phase always comes to such a point. -/
theorem LeadsTo.of_enabled {E : σ → Prop} {C : σ → ε → Prop}
    (hfair : x.Recurs (fun s _ => E s) → x.Recurs fun s e => E s ∧ C s e)
    (hstays : ∀ n, P (x.state n) → P (x.state (n + 1)) ∨ Q (x.state (n + 1)))
    (henabled : x.LeadsTo P fun s => Q s ∨ E s)
    (hhelps : ∀ n, P (x.state n) → E (x.state n) → C (x.state n) (x.event n) →
      Q (x.state (n + 1))) :
    x.LeadsTo P Q := by
  intro n hp
  by_contra hnever
  simp only [not_exists, not_and] at hnever
  have hphase : ∀ d, P (x.state (n + d)) := by
    intro d
    induction d with
    | zero => exact hp
    | succ d ih => exact (hstays (n + d) ih).resolve_right (hnever (n + d + 1) (by omega))
  have hrecurs : x.Recurs fun s _ => E s := by
    intro k
    obtain ⟨m, hm, hq | he⟩ := henabled (n + k) (hphase k)
    · exact absurd hq (hnever m (by omega))
    · exact ⟨m, by omega, he⟩
  obtain ⟨m, hm, he, hc⟩ := hfair hrecurs n
  obtain ⟨d, rfl⟩ := Nat.exists_eq_add_of_le hm
  exact hnever (n + d + 1) (by omega) (hhelps (n + d) (hphase d) he hc)

/-- A phase lasts until a step that helps; if the phase has set in for good, such steps recur. -/
theorem LeadsTo.of_settled {E : σ → Prop} {C : σ → ε → Prop}
    (hfair : x.Settles (fun s _ => E s) → x.Recurs C)
    (hstays : ∀ n, P (x.state n) → P (x.state (n + 1)) ∨ Q (x.state (n + 1)))
    (henabled : ∀ n, P (x.state n) → E (x.state n))
    (hhelps : ∀ n, P (x.state n) → C (x.state n) (x.event n) → Q (x.state (n + 1))) :
    x.LeadsTo P Q := by
  intro n hp
  by_contra hnever
  have hphase : ∀ m ≥ n, P (x.state m) := by
    intro m hm
    obtain ⟨d, rfl⟩ := Nat.exists_eq_add_of_le hm
    exact (phase hstays hp d).resolve_left hnever
  obtain ⟨m, hm, hc⟩ := hfair ⟨n, fun m hm => henabled m (hphase m hm)⟩ n
  exact hnever ⟨m + 1, by omega, hhelps m (hphase m hm) hc⟩

/-- Every phase lowers a rank, or is the last one. -/
theorem LeadsTo.of_rank {W : Type*} [LT W] [WellFoundedLT W] (rank : σ → W)
    (h : ∀ w, x.LeadsTo (fun s => P s ∧ rank s = w) fun s => Q s ∨ P s ∧ rank s < w) :
    x.LeadsTo P Q := by
  have hrank : ∀ w n, P (x.state n) → rank (x.state n) = w → ∃ m ≥ n, Q (x.state m) := by
    intro w
    induction w using WellFoundedLT.induction with
    | ind w ih =>
        intro n hp hw
        obtain ⟨m, hm, hdone | ⟨hpm, hlt⟩⟩ := h w n ⟨hp, hw⟩
        · exact ⟨m, hm, hdone⟩
        · obtain ⟨k, hk, hq⟩ := ih _ hlt m hpm rfl
          exact ⟨k, le_trans hm hk, hq⟩
  exact fun n hp => hrank _ n hp rfl

end Execution

end TinyKv.Foundation
