import Mathlib.Data.List.Basic
import Mathlib.Order.Defs.PartialOrder

/-!
# Deterministic machines

A machine takes one step for each event. What every step keeps, every run keeps; what
no step lowers, no run lowers. A transducer also answers every event, and refines another one
when related states give equal answers.
-/

namespace TinyKv.Foundation

/-- A machine with states `σ` and events `ε`. -/
structure Machine (σ ε : Type*) where
  step : σ → ε → σ

namespace Machine

variable {σ ε : Type*} (M : Machine σ ε)

/-- The state after a list of events. -/
def run : σ → List ε → σ
  | s, [] => s
  | s, e :: rest => run (M.step s e) rest

@[simp] theorem run_nil (s : σ) : M.run s [] = s := rfl

@[simp] theorem run_cons (s : σ) (e : ε) (rest : List ε) :
    M.run s (e :: rest) = M.run (M.step s e) rest := rfl

theorem run_append (s : σ) (events more : List ε) :
    M.run s (events ++ more) = M.run (M.run s events) more := by
  induction events generalizing s with
  | nil => rfl
  | cons e rest ih => exact ih (M.step s e)

/-- An invariant of the steps is an invariant of the runs. -/
theorem run_invariant {I : σ → Prop} {events : List ε}
    (hstep : ∀ s, I s → ∀ e ∈ events, I (M.step s e)) {s : σ} (h : I s) :
    I (M.run s events) := by
  induction events generalizing s with
  | nil => exact h
  | cons e rest ih =>
      apply ih
      · intro t ht e' he'
        exact hstep t ht e' (List.mem_cons_of_mem e he')
      · exact hstep s h e (List.mem_cons_self ..)

/-- What no step lowers, under an invariant, no run lowers. -/
theorem le_run {γ : Type*} [Preorder γ] {I : σ → Prop} {f : σ → γ}
    (hstep : ∀ s e, I s → f s ≤ f (M.step s e) ∧ I (M.step s e)) {s : σ} (h : I s)
    (events : List ε) : f s ≤ f (M.run s events) := by
  induction events generalizing s with
  | nil => exact le_rfl
  | cons e rest ih =>
      obtain ⟨hle, hnext⟩ := hstep s e h
      exact le_trans hle (ih hnext)

/-- When every step is matched by a run of another machine, every run is. -/
theorem run_simulated {τ δ : Type*} (N : Machine τ δ) {R : σ → τ → Prop}
    (hstep : ∀ {s t}, R s t → ∀ e, ∃ more, R (M.step s e) (N.run t more)) {s : σ} {t : τ}
    (h : R s t) (events : List ε) : ∃ more, R (M.run s events) (N.run t more) := by
  induction events generalizing s t with
  | nil => exact ⟨[], h⟩
  | cons e rest ih =>
      obtain ⟨first, hfirst⟩ := hstep h e
      obtain ⟨more, hmore⟩ := ih hfirst
      refine ⟨first ++ more, ?_⟩
      rw [run_append]
      exact hmore

/-- Every step of the run meets the condition. -/
def Meets (C : σ → ε → Prop) : σ → List ε → Prop
  | _, [] => True
  | s, e :: rest => C s e ∧ Meets C (M.step s e) rest

instance decidableMeets {C : σ → ε → Prop} [∀ s e, Decidable (C s e)] :
    ∀ s events, Decidable (M.Meets C s events)
  | _, [] => .isTrue trivial
  | s, e :: rest =>
      have : Decidable (M.Meets C (M.step s e) rest) := decidableMeets (M.step s e) rest
      inferInstanceAs (Decidable (C s e ∧ M.Meets C (M.step s e) rest))

/-- An invariant of the steps that meet a condition is one of the runs that do. -/
theorem run_invariant_of_meets {I : σ → Prop} {C : σ → ε → Prop}
    (hstep : ∀ s e, I s → C s e → I (M.step s e)) {s : σ} {events : List ε} (h : I s)
    (hmeets : M.Meets C s events) : I (M.run s events) := by
  induction events generalizing s with
  | nil => exact h
  | cons e rest ih => exact ih (hstep s e h hmeets.1) hmeets.2

/-- A run goes on where its beginning has ended. -/
theorem meets_append {C : σ → ε → Prop} (s : σ) (events more : List ε) :
    M.Meets C s (events ++ more) ↔ M.Meets C s events ∧ M.Meets C (M.run s events) more := by
  induction events generalizing s with
  | nil => simp only [List.nil_append, Meets, run_nil, true_and]
  | cons e rest ih =>
      change C s e ∧ M.Meets C (M.step s e) (rest ++ more) ↔ _
      rw [ih, ← and_assoc]
      rfl

/-- The beginnings of a run that meets a condition meet it. -/
theorem Meets.before {M : Machine σ ε} {C : σ → ε → Prop} {s : σ} {first events : List ε}
    (hmeets : M.Meets C s events) (h : first <+: events) : M.Meets C s first := by
  induction first generalizing s events with
  | nil => trivial
  | cons e rest ih =>
      obtain ⟨more, rfl⟩ := h
      exact ⟨hmeets.1, ih hmeets.2 (List.prefix_append rest more)⟩

/-- Under an invariant, a run that meets a condition meets what follows from it. -/
theorem Meets.imp {M : Machine σ ε} {I : σ → Prop} {C D : σ → ε → Prop} {s : σ} {events : List ε}
    (hmeets : M.Meets C s events) (hstep : ∀ s e, I s → C s e → I (M.step s e))
    (himp : ∀ s e, I s → C s e → D s e) (h : I s) : M.Meets D s events := by
  induction events generalizing s with
  | nil => trivial
  | cons e rest ih =>
      obtain ⟨hcondition, hrest⟩ := hmeets
      exact ⟨himp s e h hcondition, ih hrest (hstep s e h hcondition)⟩

/-- Two conditions that agree under an invariant are met by the same runs. -/
theorem meets_congr {I : σ → Prop} {C D : σ → ε → Prop}
    (hstep : ∀ s e, I s → C s e → I (M.step s e)) (hiff : ∀ s e, I s → (C s e ↔ D s e)) {s : σ}
    (h : I s) (events : List ε) : M.Meets C s events ↔ M.Meets D s events := by
  constructor
  · intro hmeets
    exact hmeets.imp hstep (fun s e hs hc => (hiff s e hs).mp hc) h
  · intro hmeets
    apply hmeets.imp _ (fun s e hs hd => (hiff s e hs).mpr hd) h
    intro s e hs hd
    exact hstep s e hs ((hiff s e hs).mpr hd)

/-- A condition that follows from an invariant is met by every run. -/
theorem meets_of_invariant {I : σ → Prop} {C : σ → ε → Prop}
    (hstep : ∀ s e, I s → I (M.step s e)) (hmeets : ∀ s e, I s → C s e) {s : σ} (h : I s)
    (events : List ε) : M.Meets C s events := by
  induction events generalizing s with
  | nil => trivial
  | cons e rest ih => exact ⟨hmeets s e h, ih (hstep s e h)⟩

/-- A measure that grows in exactly the steps that fail a condition tells whether a run
has met it. -/
theorem meets_iff_measure {I : σ → Prop} {C : σ → ε → Prop} {f : σ → Nat}
    (hinvariant : ∀ s e, I s → I (M.step s e))
    (hmeets : ∀ s e, I s → C s e → f (M.step s e) = f s)
    (hfails : ∀ s e, I s → ¬ C s e → f s < f (M.step s e)) {s : σ} (h : I s) (events : List ε) :
    f s ≤ f (M.run s events) ∧ (M.Meets C s events ↔ f (M.run s events) = f s) := by
  induction events generalizing s with
  | nil => exact ⟨Nat.le_refl _, by simp [Meets]⟩
  | cons e rest ih =>
      obtain ⟨hle, hiff⟩ := ih (hinvariant s e h)
      rw [run_cons, Meets, hiff]
      by_cases hcondition : C s e
      · have hsame := hmeets s e h hcondition
        rw [hsame] at hle ⊢
        exact ⟨hle, and_iff_right hcondition⟩
      · have hgrows := hfails s e h hcondition
        refine ⟨by omega, fun hboth => absurd hboth.1 hcondition, fun hsame => ?_⟩
        omega

/-- A property that the steps that meet a condition keep, and that all others break, holds
all along exactly the runs that meet the condition. -/
theorem meets_iff_all_along {I P : σ → Prop} {C : σ → ε → Prop}
    (hinvariant : ∀ s e, I s → I (M.step s e))
    (hkeeps : ∀ s e, I s → P s → C s e → P (M.step s e))
    (hbreaks : ∀ s e, I s → ¬ C s e → ¬ P (M.step s e)) {s : σ} (h : I s) (hp : P s)
    (events : List ε) : M.Meets C s events ↔ ∀ before, before <+: events → P (M.run s before) := by
  induction events generalizing s with
  | nil =>
      refine ⟨fun _ before hbefore => ?_, fun _ => trivial⟩
      rw [List.prefix_nil.mp hbefore]
      exact hp
  | cons e rest ih =>
      constructor
      · rintro ⟨hcondition, hrest⟩ before hbefore
        have hnext := hkeeps s e h hp hcondition
        obtain rfl | ⟨more, rfl, hmore⟩ := List.prefix_cons_iff.mp hbefore
        · exact hp
        · exact (ih (hinvariant s e h) hnext).mp hrest more hmore
      · intro hall
        have hnext : P (M.step s e) := hall [e] (List.prefix_cons_inj e |>.mpr List.nil_prefix)
        refine ⟨by_contra fun hfails => hbreaks s e h hfails hnext, ?_⟩
        apply (ih (hinvariant s e h) hnext).mpr
        intro more hmore
        exact hall (e :: more) ((List.prefix_cons_inj e).mpr hmore)

end Machine

/-- A machine that answers every event with a value of `ρ`. -/
structure Transducer (σ ε ρ : Type*) where
  step : σ → ε → ρ × σ

namespace Transducer

variable {σ τ ε ρ : Type*} (T : Transducer σ ε ρ)

/-- The answers to a list of events and the state after it. -/
def run : σ → List ε → List ρ × σ
  | s, [] => ([], s)
  | s, e :: rest =>
      let (answer, s) := T.step s e
      let (answers, s) := run s rest
      (answer :: answers, s)

/-- Steps that keep a relation and answer alike give runs that do. -/
theorem run_refines (U : Transducer τ ε ρ) {R : σ → τ → Prop}
    (hstep : ∀ {s t}, R s t → ∀ e,
      (T.step s e).1 = (U.step t e).1 ∧ R (T.step s e).2 (U.step t e).2)
    {s : σ} {t : τ} (h : R s t) (events : List ε) :
    (T.run s events).1 = (U.run t events).1 ∧ R (T.run s events).2 (U.run t events).2 := by
  induction events generalizing s t with
  | nil => exact ⟨rfl, h⟩
  | cons e rest ih =>
      obtain ⟨hanswer, hnext⟩ := hstep h e
      obtain ⟨hanswers, hend⟩ := ih hnext
      exact ⟨congrArg₂ List.cons hanswer hanswers, hend⟩

/-- An invariant of the steps is an invariant of the runs. -/
theorem run_invariant {I : σ → Prop} (hstep : ∀ s, I s → ∀ e, I (T.step s e).2) {s : σ}
    (h : I s) (events : List ε) : I (T.run s events).2 := by
  induction events generalizing s with
  | nil => exact h
  | cons e rest ih => exact ih (hstep s h e)

/-- Events without an effect can be left out of a run. -/
theorem run_filter {p : ε → Bool} (hsilent : ∀ s e, p e = false → (T.step s e).2 = s) (s : σ)
    (events : List ε) : (T.run s (events.filter p)).2 = (T.run s events).2 := by
  induction events generalizing s with
  | nil => rfl
  | cons e rest ih =>
      cases hp : p e with
      | false =>
          rw [List.filter_cons_of_neg (by simp [hp]), ih s]
          simp only [run, hsilent s e hp]
      | true =>
          rw [List.filter_cons_of_pos hp]
          exact ih (T.step s e).2

end Transducer

end TinyKv.Foundation
