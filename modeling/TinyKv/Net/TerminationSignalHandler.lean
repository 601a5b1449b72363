import TinyKv.Foundation.Machine
import Mathlib.Logic.Function.Basic

/-!
# The termination signal handler

`TerminationSignalHandler` replaces the dispositions of three signals for as long as it lives.
The descriptor that the signal handler writes to is also the mark that a handler is installed.

The outcomes of `sigaction` are inputs; a call that fails changes nothing.
-/

namespace TinyKv

open Foundation

/-- The signals that are handled. -/
inductive Signal where
  | sigint
  | sigterm
  | sigpipe
deriving DecidableEq, Repr

/-- What is done on a signal, the value of a `struct sigaction`. -/
inductive Disposition where
  | default
  | ignore
  | handleTermination
  | other (action : Nat)
deriving DecidableEq, Repr

/-- The dispositions in force. -/
abbrev Dispositions := Signal → Disposition

/-- The members of `TerminationSignalHandler`. -/
structure TerminationSignalHandler where
  installed : Bool := false
  previousSigint : Disposition
  previousSigterm : Disposition
  previousSigpipe : Disposition

/-- A handler that has been constructed, with the dispositions at the time. -/
structure LiveHandler where
  handler : TerminationSignalHandler
  before : Dispositions

/-- What handlers change of the process: the dispositions and `G_NOTIFY_FD`; and the handlers
that live. -/
structure Process where
  dispositions : Dispositions
  notifyFd : Int := -1
  handlers : List LiveHandler := []

/-- The outcomes of the `sigaction` calls of a construction: those that install a disposition
and those that restore one. -/
structure InstallCalls where
  install : Signal → Bool
  restore : Signal → Bool

namespace Process

/-- The result of `sigemptyset`, for which no errors are defined. -/
def sigemptyset : Int := 0

/-- `MakeTerminationAction`. -/
def makeTerminationAction : Except String Disposition :=
  if sigemptyset < 0 then .error "sigemptyset failed" else .ok .handleTermination

/-- `MakeIgnoreAction`. -/
def makeIgnoreAction : Except String Disposition :=
  if sigemptyset < 0 then .error "sigemptyset failed" else .ok .ignore

/-- `sigaction`. -/
def sigaction (signal : Signal) (action : Disposition) (ok : Bool) (p : Process) : Process :=
  if ok then
    { p with dispositions := Function.update p.dispositions signal action }
  else
    p

/-- The constructor, with the text of its exception but for the text of `errno`. -/
def install (notifyFd : Int) (calls : InstallCalls) (p : Process) :
    Except String TerminationSignalHandler × Process :=
  if notifyFd < 0 then
    (.error "termination notify fd must be valid", p)
  else if p.notifyFd > 0 then
    (.error "termination signal handler already installed", p)
  else
    let p := { p with notifyFd }
    match makeTerminationAction, makeIgnoreAction with
    | .error e, _ => (.error e, p)
    | .ok _, .error e => (.error e, p)
    | .ok terminationAction, .ok ignoreAction =>
        let previousSigint := p.dispositions .sigint
        let p := p.sigaction .sigint terminationAction (calls.install .sigint)
        if !calls.install .sigint then
          (.error "sigaction SIGINT failed", { p with notifyFd := -1 })
        else
          let previousSigterm := p.dispositions .sigterm
          let p := p.sigaction .sigterm terminationAction (calls.install .sigterm)
          if !calls.install .sigterm then
            let p := p.sigaction .sigint previousSigint (calls.restore .sigint)
            (.error "sigaction SIGTERM failed", { p with notifyFd := -1 })
          else
            let previousSigpipe := p.dispositions .sigpipe
            let p := p.sigaction .sigpipe ignoreAction (calls.install .sigpipe)
            if !calls.install .sigpipe then
              let p := p.sigaction .sigint previousSigint (calls.restore .sigint)
              let p := p.sigaction .sigterm previousSigterm (calls.restore .sigterm)
              -- the text in the source names `SIGTERM` here as well
              (.error "sigaction SIGTERM failed", { p with notifyFd := -1 })
            else
              (.ok ⟨true, previousSigint, previousSigterm, previousSigpipe⟩, p)

/-- The destructor. -/
def uninstall (handler : TerminationSignalHandler) (restore : Signal → Bool) (p : Process) :
    Process :=
  if !handler.installed then
    p
  else
    let p := p.sigaction .sigint handler.previousSigint (restore .sigint)
    let p := p.sigaction .sigterm handler.previousSigterm (restore .sigterm)
    let p := p.sigaction .sigpipe handler.previousSigpipe (restore .sigpipe)
    { p with notifyFd := -1 }

/-- A construction, or the destruction of one of the living handlers. -/
inductive Event where
  | construct (notifyFd : Int) (calls : InstallCalls)
  | destroy (index : Nat) (restore : Signal → Bool)

def step (p : Process) : Event → Process
  | .construct notifyFd calls =>
      match p.install notifyFd calls with
      | (.error _, after) => after
      | (.ok handler, after) =>
          { after with handlers := after.handlers ++ [⟨handler, p.dispositions⟩] }
  | .destroy index restore =>
      match p.handlers[index]? with
      | none => p
      | some live =>
          { p with handlers := p.handlers.eraseIdx index }.uninstall live.handler restore

/-- The process under constructions and destructions. -/
def machine : Machine Process Event := ⟨step⟩

/-- A process without a handler. -/
def fresh (dispositions : Dispositions) : Process := { dispositions }

/-! ### What is promised, and when -/

/-- A construction while a handler lives throws; a construction that throws changes nothing; a
destruction restores what was in force before the handler and clears the descriptor. -/
def Transactional (p : Process) : Event → Prop
  | .construct notifyFd calls =>
      (p.handlers ≠ [] → (p.install notifyFd calls).1.isOk = false) ∧
        ((p.install notifyFd calls).1.isOk = false →
          (p.step (.construct notifyFd calls)).dispositions = p.dispositions ∧
            (p.step (.construct notifyFd calls)).notifyFd = p.notifyFd)
  | .destroy index restore => ∀ live, p.handlers[index]? = some live →
      (p.step (.destroy index restore)).dispositions = live.before ∧
        (p.step (.destroy index restore)).notifyFd = -1

/-- The signals whose dispositions a construction has replaced when a later call fails. -/
def undone (calls : InstallCalls) : List Signal :=
  if !calls.install .sigint then
    []
  else if !calls.install .sigterm then
    [.sigint]
  else if !calls.install .sigpipe then
    [.sigint, .sigterm]
  else
    []

/-- No construction with a valid descriptor while a handler lives whose descriptor is zero, and
the calls that restore a disposition succeed, or it is in force already. -/
def Restores (p : Process) : Event → Prop
  | .construct notifyFd calls => 0 ≤ notifyFd → p.notifyFd ≠ 0 ∧
      (p.notifyFd < 0 → ∀ signal ∈ undone calls,
        calls.restore signal = true ∨ p.dispositions signal = .handleTermination)
  | .destroy index restore => ∀ live, p.handlers[index]? = some live →
      ∀ signal, restore signal = true ∨ p.dispositions signal = live.before signal

/-! ### What the steps do -/

/-- The dispositions while a handler is installed. -/
def taken : Dispositions
  | .sigint => .handleTermination
  | .sigterm => .handleTermination
  | .sigpipe => .ignore

/-- The dispositions after a construction that fails with `calls`. -/
def rolledBack (dispositions : Dispositions) (calls : InstallCalls) : Dispositions := fun signal =>
  if calls.restore signal = true ∨ signal ∉ undone calls then
    dispositions signal
  else
    .handleTermination

theorem rolledBack_eq_iff {dispositions : Dispositions} {calls : InstallCalls} :
    rolledBack dispositions calls = dispositions ↔ ∀ signal ∈ undone calls,
      calls.restore signal = true ∨ dispositions signal = .handleTermination := by
  rw [funext_iff]
  apply forall_congr'
  intro signal
  unfold rolledBack
  split
  next hrestored =>
    exact iff_of_true rfl fun hmem => .inl (hrestored.resolve_right (not_not_intro hmem))
  next hlost =>
    obtain ⟨hfails, hmem⟩ := not_or.mp hlost
    exact ⟨fun heq _ => .inr heq.symm,
      fun h => ((h (not_not.mp hmem)).resolve_left hfails).symm⟩

/-- A handler that has replaced the given dispositions. -/
def replacing (before : Dispositions) : TerminationSignalHandler :=
  ⟨true, before .sigint, before .sigterm, before .sigpipe⟩

/-- What the constructor can do. -/
inductive InstallOutcome (notifyFd : Int) (calls : InstallCalls) (p : Process) :
    Except String TerminationSignalHandler × Process → Prop
  | refused {e : String} (hrefused : notifyFd < 0 ∨ 0 < p.notifyFd) :
      InstallOutcome notifyFd calls p (.error e, p)
  | failed {e : String} (hfd : 0 ≤ notifyFd) (hguard : p.notifyFd ≤ 0) :
      InstallOutcome notifyFd calls p (.error e,
        { p with dispositions := rolledBack p.dispositions calls, notifyFd := -1 })
  | installed (hfd : 0 ≤ notifyFd) (hguard : p.notifyFd ≤ 0) (hnone : undone calls = []) :
      InstallOutcome notifyFd calls p (.ok (replacing p.dispositions),
        { p with dispositions := taken, notifyFd })

@[simp] theorem sigaction_handlers (signal : Signal) (action : Disposition) (ok : Bool)
    (p : Process) : (p.sigaction signal action ok).handlers = p.handlers := by
  cases ok <;> rfl

@[simp] theorem sigaction_dispositions (signal : Signal) (action : Disposition) (ok : Bool)
    (p : Process) (other : Signal) : (p.sigaction signal action ok).dispositions other =
      if ok = true ∧ other = signal then action else p.dispositions other := by
  cases ok with
  | false => simp [sigaction]
  | true => simp [sigaction, Function.update_apply]

theorem install_outcome (notifyFd : Int) (calls : InstallCalls) (p : Process) :
    InstallOutcome notifyFd calls p (p.install notifyFd calls) := by
  unfold install
  split
  next hinvalid => exact .refused (.inl hinvalid)
  next hvalid =>
    have hfd : 0 ≤ notifyFd := Int.not_lt.mp hvalid
    split
    next hlive => exact .refused (.inr hlive)
    next hguard =>
      have hguard : p.notifyFd ≤ 0 := Int.not_lt.mp hguard
      have hfailed {e : String} {after : Process} (hhandlers : after.handlers = p.handlers)
          (hback : ∀ signal, after.dispositions signal = rolledBack p.dispositions calls signal) :
          InstallOutcome notifyFd calls p (.error e, { after with notifyFd := -1 }) := by
        rw [funext hback, hhandlers]
        exact .failed hfd hguard
      simp only [makeTerminationAction, makeIgnoreAction, sigemptyset, Int.lt_irrefl, if_false]
      cases hint : calls.install .sigint with
      | false =>
          apply hfailed
          · simp
          · intro signal
            simp [rolledBack, undone, hint]
      | true =>
          cases hterm : calls.install .sigterm with
          | false =>
              apply hfailed
              · simp
              · intro signal
                cases signal <;> simp [rolledBack, undone, hint, hterm]
          | true =>
              cases hpipe : calls.install .sigpipe with
              | false =>
                  apply hfailed
                  · simp
                  · intro signal
                    cases signal <;> simp [rolledBack, undone, hint, hterm, hpipe]
              | true =>
                  have hnone : undone calls = [] := by simp [undone, hint, hterm, hpipe]
                  have htaken : Function.update (Function.update (Function.update p.dispositions
                      .sigint .handleTermination) .sigterm .handleTermination) .sigpipe .ignore =
                        taken := by
                    ext signal
                    cases signal <;> rfl
                  have hinstalled := InstallOutcome.installed hfd hguard hnone
                  rw [← htaken] at hinstalled
                  exact hinstalled

/-- The destructor restores the dispositions whose calls succeed. -/
theorem uninstall_replacing (before : Dispositions) (restore : Signal → Bool) (p : Process) :
    p.uninstall (replacing before) restore =
      { p with
        dispositions := fun signal =>
          if restore signal = true then before signal else p.dispositions signal
        notifyFd := -1 } := by
  have hdispositions : (p.uninstall (replacing before) restore).dispositions = fun signal =>
      if restore signal = true then before signal else p.dispositions signal := by
    ext signal
    cases signal <;> simp [uninstall, replacing]
  have hhandlers : (p.uninstall (replacing before) restore).handlers = p.handlers := by
    simp [uninstall, replacing]
  rw [← hdispositions, ← hhandlers]
  rfl

/-! ### Runs -/

/-- Either no handler lives and the descriptor is cleared, or one does. -/
inductive Settled (p : Process) : Prop
  | free (hhandlers : p.handlers = []) (hfd : p.notifyFd = -1)
  | live {before : Dispositions} (hhandlers : p.handlers = [⟨replacing before, before⟩])
      (hfd : 0 ≤ p.notifyFd)

/-- In the states that are reached, a construction keeps the promise exactly when the condition
is met. -/
theorem restores_construct_iff {p : Process} (h : Settled p) (notifyFd : Int)
    (calls : InstallCalls) :
    Restores p (.construct notifyFd calls) ↔ Transactional p (.construct notifyFd calls) := by
  have houtcome := install_outcome notifyFd calls p
  simp only [Restores, Transactional, step]
  generalize p.install notifyFd calls = result at houtcome ⊢
  cases houtcome with
  | refused hrefused =>
      apply iff_of_true
      · intro hfd
        have hlive : 0 < p.notifyFd := hrefused.resolve_left (Int.not_lt.mpr hfd)
        exact ⟨by omega, fun hnone => by omega⟩
      · exact ⟨fun _ => rfl, fun _ => ⟨rfl, rfl⟩⟩
  | failed hfd hguard =>
      cases h with
      | free hhandlers hnone =>
          rw [← rolledBack_eq_iff]
          constructor
          · intro hrestores
            obtain ⟨-, hback⟩ := hrestores hfd
            exact ⟨fun _ => rfl, fun _ => ⟨hback (by omega), hnone.symm⟩⟩
          · rintro ⟨-, hsame⟩ -
            exact ⟨by omega, fun _ => (hsame rfl).1⟩
      | live hhandlers hlive =>
          apply iff_of_false
          · intro hrestores
            exact (hrestores hfd).1 (by omega)
          · rintro ⟨-, hsame⟩
            obtain ⟨-, hfdSame⟩ := hsame rfl
            simp only at hfdSame
            omega
  | installed hfd hguard hnone =>
      cases h with
      | free hhandlers hcleared =>
          apply iff_of_true
          · rw [hnone]
            exact fun _ => ⟨by omega, fun _ signal hmem => absurd hmem List.not_mem_nil⟩
          · exact ⟨fun hsome => absurd hhandlers hsome, fun hfalse => by cases hfalse⟩
      | live hhandlers hlive =>
          apply iff_of_false
          · intro hrestores
            exact (hrestores hfd).1 (by omega)
          · rintro ⟨hthrows, -⟩
            cases hthrows (by simp [hhandlers])

/-- In the states that are reached, a destruction keeps the promise exactly when the condition
is met. -/
theorem restores_destroy_iff {p : Process} (h : Settled p) (index : Nat)
    (restore : Signal → Bool) :
    Restores p (.destroy index restore) ↔ Transactional p (.destroy index restore) := by
  simp only [Restores, Transactional, step]
  apply forall_congr'
  intro live
  apply imp_congr_right
  intro hget
  cases h with
  | free hhandlers hcleared => simp [hhandlers] at hget
  | @live before hhandlers hlive =>
      obtain rfl : live = ⟨replacing before, before⟩ := by
        rw [hhandlers] at hget
        exact List.mem_singleton.mp (List.mem_of_getElem? hget)
      simp only [hget, uninstall_replacing, and_true, funext_iff]
      apply forall_congr'
      intro signal
      cases restore signal <;> simp

theorem restores_iff {p : Process} (h : Settled p) (event : Event) :
    Restores p event ↔ Transactional p event := by
  cases event with
  | construct notifyFd calls => exact restores_construct_iff h notifyFd calls
  | destroy index restore => exact restores_destroy_iff h index restore

theorem Settled.step {p : Process} (h : Settled p) {event : Event} (hrestores : Restores p event) :
    Settled (p.step event) := by
  cases event with
  | construct notifyFd calls =>
      have houtcome := install_outcome notifyFd calls p
      simp only [Restores, Process.step] at hrestores ⊢
      generalize p.install notifyFd calls = result at houtcome ⊢
      cases houtcome with
      | refused hrefused => exact h
      | failed hfd hguard =>
          cases h with
          | free hhandlers hcleared => exact .free hhandlers rfl
          | live hhandlers hlive => exact absurd (by omega) (hrestores hfd).1
      | installed hfd hguard hnone =>
          cases h with
          | free hhandlers hcleared => exact .live (by rw [hhandlers]; rfl) hfd
          | live hhandlers hlive => exact absurd (by omega) (hrestores hfd).1
  | destroy index restore =>
      simp only [Process.step]
      cases hget : p.handlers[index]? with
      | none => exact h
      | some live =>
          cases h with
          | free hhandlers hcleared => simp [hhandlers] at hget
          | @live before hhandlers hlive =>
              rw [hhandlers] at hget ⊢
              obtain ⟨hindex, rfl⟩ := List.getElem?_eq_some_iff.mp hget
              obtain rfl : index = 0 := by simpa using hindex
              simp only [List.getElem_cons_zero, uninstall_replacing]
              exact .free rfl rfl

/-- In a run every construction while a handler lives throws, every construction that throws
changes nothing and every destruction restores what was in force, with at most one handler at
any time, exactly when the condition is met. -/
theorem exclusive_iff (dispositions : Dispositions) (events : List Event) :
    machine.Meets Restores (fresh dispositions) events ↔
      machine.Meets Transactional (fresh dispositions) events ∧
        ∀ before, before <+: events →
          (machine.run (fresh dispositions) before).handlers.length ≤ 1 := by
  have hfresh : Settled (fresh dispositions) := .free rfl rfl
  have hstep (p : Process) (event : Event) (h : Settled p) (hrestores : Restores p event) :
      Settled (machine.step p event) := h.step hrestores
  have hiff := machine.meets_congr hstep (fun p event h => restores_iff h event) hfresh events
  constructor
  · intro hmeets
    refine ⟨hiff.mp hmeets, fun before hbefore => ?_⟩
    have hsettled := machine.run_invariant_of_meets hstep hfresh (hmeets.before hbefore)
    cases hsettled with
    | free hhandlers hcleared => simp [hhandlers]
    | live hhandlers hlive => simp [hhandlers]
  · rintro ⟨htransactional, -⟩
    exact hiff.mpr htransactional

/-- All calls succeed. -/
def succeeding : InstallCalls := ⟨fun _ => true, fun _ => true⟩

/-- A handler with the descriptor zero, and another one while it lives. -/
def secondHandler : List Event := [.construct 0 succeeding, .construct 5 succeeding]

/-- The second construction succeeds, as the descriptor zero does not count as installed. -/
theorem two_live_handlers :
    (machine.run (fresh fun _ => .default) secondHandler).handlers.length = 2 ∧
      ¬ machine.Meets Transactional (fresh fun _ => .default) secondHandler := by
  refine ⟨rfl, ?_⟩
  rintro ⟨-, ⟨hthrows, -⟩, -⟩
  cases hthrows (List.cons_ne_nil _ _)

end Process

end TinyKv
