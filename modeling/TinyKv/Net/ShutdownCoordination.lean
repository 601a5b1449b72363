import TinyKv.Net.TcpServer

/-!
# The shutdown of the main reactor and its sub reactors

The main reactor stops accepting, sends every sub reactor one `Stop`, sends at most one
round of `ForceStop` once the deadline has passed, and stops when all sub reactors have
published `Stopped`. A sub reactor that has published it changes no more.
-/

namespace TinyKv

open Foundation

variable {Q : ExpirationQueue}

namespace SubReactor

/-- The published state follows the transitions in every step after `Start`. -/
theorem advances_step {r : SubReactor Q} (h : r.Tidy) (hstarted : r.publishedState ≠ .created)
    (o : NetworkOptions) (action : Action Q) :
    Advances r.publishedState (r.step o action).publishedState := by
  cases action with
  | start addOk threadOk =>
      rw [SubReactor.step, start_of_started hstarted]
      exact .refl _
  | enqueClient fd =>
      obtain ⟨fds, heq⟩ := r.enqueClient_eq fd
      rw [SubReactor.step, heq]
      exact .refl _
  | stop deadline => exact .refl _
  | forceStop => exact .refl _
  | iterate input =>
      have hafter := (h.iterate o input).published
      change Advances _ (r.iterate o input).publishedState
      rw [hafter, h.published]
      exact advances_iterate r o input

theorem advances_run {r : SubReactor Q} (h : r.Tidy) (hstarted : r.publishedState ≠ .created)
    (o : NetworkOptions) (steps : List (Action Q)) :
    Advances r.publishedState (r.run o steps).publishedState := by
  have hall : (r.run o steps).Tidy ∧
      Advances r.publishedState (r.run o steps).publishedState := by
    apply (machine o).run_invariant (I := fun after =>
      after.Tidy ∧ Advances r.publishedState after.publishedState)
    · rintro after ⟨htidy, hadvances⟩ action -
      have hnext := advances_step htidy (hadvances.ne_created hstarted) o action
      exact ⟨htidy.step o action, hadvances.trans hnext⟩
    · exact ⟨h, .refl _⟩
  exact hall.2

/-- A stopped reactor executes nothing, and takes no clients. -/
theorem stopped_step {r : SubReactor Q} (h : r.Tidy) (hstopped : r.publishedState = .stopped)
    (o : NetworkOptions) (action : Action Q) :
    (r.step o action).publishedState = .stopped ∧ (r.step o action).departed = r.departed ∧
      (r.step o action).store = r.store := by
  cases action with
  | start addOk threadOk =>
      have hstarted : r.publishedState ≠ .created := by
        rw [hstopped]
        nofun
      rw [SubReactor.step, start_of_started hstarted]
      exact ⟨hstopped, rfl, rfl⟩
  | enqueClient fd =>
      obtain ⟨fds, heq⟩ := r.enqueClient_eq fd
      rw [SubReactor.step, heq]
      exact ⟨hstopped, rfl, rfl⟩
  | stop deadline => exact ⟨hstopped, rfl, rfl⟩
  | forceStop => exact ⟨hstopped, rfl, rfl⟩
  | iterate input =>
      have hiterate : r.step o (.iterate input) = r := by
        rw [SubReactor.step, SubReactor.iterate, if_pos (.inr (h.published ▸ hstopped))]
      rw [hiterate]
      exact ⟨hstopped, rfl, rfl⟩

theorem stopped_run {r : SubReactor Q} (h : r.Tidy) (hstopped : r.publishedState = .stopped)
    (o : NetworkOptions) (steps : List (Action Q)) :
    (r.run o steps).clients = ∅ ∧ (r.run o steps).departed = r.departed ∧
      (r.run o steps).store = r.store := by
  have hall : (r.run o steps).Tidy ∧ (r.run o steps).publishedState = .stopped ∧
      (r.run o steps).departed = r.departed ∧ (r.run o steps).store = r.store := by
    apply (machine o).run_invariant (I := fun after => after.Tidy ∧
      after.publishedState = .stopped ∧ after.departed = r.departed ∧ after.store = r.store)
    · rintro after ⟨htidy, hstate, hdeparted, hstore⟩ action -
      obtain ⟨hstate', hdeparted', hstore'⟩ := stopped_step htidy hstate o action
      exact ⟨htidy.step o action, hstate', hdeparted'.trans hdeparted, hstore'.trans hstore⟩
    · exact ⟨h, hstopped, rfl, rfl⟩
  obtain ⟨htidy, hstate, hdeparted, hstore⟩ := hall
  exact ⟨htidy.stopped (htidy.published ▸ hstate), hdeparted, hstore⟩

end SubReactor

/-- The transitions of the main reactor outside the `catch` clause of `Run`. -/
inductive ServerState.Moves : ServerState → ServerState → Prop where
  | stay (state : ServerState) : Moves state state
  | start : Moves .created .running
  | drain : Moves .running .draining
  | finish : Moves .draining .stopped

/-- The call accepts a client or hands it out. -/
def MainCall.ofClient : MainCall → Bool
  | .accept _ | .enqueClient .. => true
  | _ => false

namespace TcpServer

/-- The calls that accept clients and hand them out. -/
def clientCalls (s : TcpServer Q) : List MainCall := s.calls.filter (·.ofClient)

/-- The main reactor has left `Running`. -/
def Left (s : TcpServer Q) : Prop := s.state = .draining ∨ s.state = .stopped

/-- Every sub reactor has published `Stopped`. -/
def AllStopped (s : TcpServer Q) : Prop := ∀ r ∈ s.subReactors, r.publishedState = .stopped

/-- The calls are those for clients, then `stops` calls of `Stop` in turn, then `forced`. -/
def Recorded (s : TcpServer Q) (stops : Nat) (forced : List MainCall) : Prop :=
  ∃ clients, s.calls = clients ++ (List.range stops).map .stop ++ forced ∧
    ∀ call ∈ clients, call.ofClient = true

/-- One round of `ForceStop`, after the deadline, to sub reactors before `next`. -/
def Forced (s : TcpServer Q) (next : Nat) (forced : List MainCall) : Prop :=
  ∃ now reactors, s.shutdownDeadline ≤ now ∧ List.Sublist reactors (List.range next) ∧
    forced = .forceRound now s.shutdownDeadline :: reactors.map .forceStop

/-- The points of the loop of `Run` in state `Running`. -/
def ofRunning : RunPoint → Prop
  | .wait | .checkSubReactorHealth .. | .handleReady _ | .acceptNewClients .. => True
  | .checkShutdownProgress next _ => next = 0
  | _ => False

/-- The points of the loop of `Run` in state `Draining`, but for the calls on the sub
reactors. The check of their states has found those before `next` stopped. -/
def ofDraining (s : TcpServer Q) : RunPoint → Prop
  | .wait | .checkSubReactorHealth .. | .handleReady _ => True
  | .checkShutdownProgress next allSubReactorStopped => allSubReactorStopped = true →
      ∀ i r, i < next → s.subReactors[i]? = some r → r.publishedState = .stopped
  | _ => False

/-- The points of the `catch` clause of `Run`. -/
def ofException : RunPoint → Prop
  | .handleException _ | .joinSubReactors | .returned => True
  | _ => False

/-- What the main reactor has done, by the state it is in. -/
inductive Coordinated (s : TcpServer Q) : Prop where
  | starting (hstate : s.state = .created)
      (hpoint : s.point = .created ∨ ∃ next, s.point = .startSubReactors next)
      (hsent : s.forceStopSent = false) (hcalls : s.calls = [])
  | running (hstate : s.state = .running) (hpoint : ofRunning s.point)
      (hsent : s.forceStopSent = false) (hcalls : ∀ call ∈ s.calls, call.ofClient = true)
  | stopping {next : Nat} {ready : List ReadyEvent} (hstate : s.state = .draining)
      (hpoint : s.point = .stopSubReactors next ready) (hle : next ≤ s.subReactors.length)
      (hsent : s.forceStopSent = false) (hcalls : s.Recorded next [])
  | draining {forced : List MainCall} (hstate : s.state = .draining)
      (hpoint : s.ofDraining s.point) (hcalls : s.Recorded s.subReactors.length forced)
      (hforced : s.forceStopSent = true ∧ s.Forced s.subReactors.length forced ∨
        s.forceStopSent = false ∧ forced = [])
  | forcing {next : Nat} {forced : List MainCall} (hstate : s.state = .draining)
      (hpoint : s.point = .forceStopSubReactors next) (hle : next ≤ s.subReactors.length)
      (hcalls : s.Recorded s.subReactors.length forced) (hforced : s.Forced next forced)
  | stopped {forced : List MainCall} (hstate : s.state = .stopped)
      (hpoint : s.point = .joinSubReactors ∨ s.point = .returned) (hall : s.AllStopped)
      (hcalls : s.Recorded s.subReactors.length forced)
      (hforced : forced = [] ∨ s.Forced s.subReactors.length forced)
  | caught (hcaught : s.caught = true) (hpoint : ofException s.point)

/-- A step of the main reactor that keeps to the shutdown. -/
structure Follows (s after : TcpServer Q) : Prop where
  coordinated : after.Coordinated
  moves : after.caught = true ∨ s.state.Moves after.state
  left : s.Left → after.Left ∧ after.clientCalls = s.clientCalls

/-- An exception is the end of the shutdown. -/
theorem follows_catchException {s t : TcpServer Q} (hleft : s.Left → t.Left)
    (hcalls : t.calls = s.calls) : s.Follows t.catchException where
  coordinated := .caught rfl trivial
  moves := .inl rfl
  left h := ⟨hleft h, congrArg (List.filter _) hcalls⟩

theorem not_left {s : TcpServer Q} {state : ServerState} (h : s.state = state)
    (hdraining : state ≠ .draining) (hstopped : state ≠ .stopped) : ¬ s.Left := by
  rintro (hstate | hstate)
  · exact hdraining (h.symm.trans hstate)
  · exact hstopped (h.symm.trans hstate)

/-- A step within `Running`. -/
theorem follows_running {s after : TcpServer Q} (h : s.state = .running)
    (hafter : after.state = .running) (hpoint : ofRunning after.point)
    (hsent : after.forceStopSent = false) (hcalls : ∀ call ∈ after.calls, call.ofClient = true) :
    s.Follows after where
  coordinated := .running hafter hpoint hsent hcalls
  moves := .inr (by rw [h, hafter]; exact .stay _)
  left hleft := absurd hleft (not_left h nofun nofun)

/-- The start of `Run`. -/
theorem follows_runStep_starting {s : TcpServer Q} (hstate : s.state = .created)
    (hpoint : s.point = .created ∨ ∃ next, s.point = .startSubReactors next)
    (hsent : s.forceStopSent = false) (hcalls : s.calls = []) (c : ServerSetup)
    (input : RunInput) : s.Follows (s.runStep c input) := by
  have hnot : ¬ s.Left := not_left hstate (by decide) (by decide)
  have hcatch {t : TcpServer Q} (ht : t.calls = s.calls) : s.Follows t.catchException :=
    follows_catchException (fun hleft => absurd hleft hnot) ht
  -- the thread is at no other point
  have hother {point : RunPoint} (h : s.point = point) (hcreated : point ≠ .created)
      (hstart : ∀ next, point ≠ .startSubReactors next) {P : Prop} : P := by
    obtain hat | ⟨next, hat⟩ := hpoint
    · exact absurd (h.symm.trans hat) hcreated
    · exact absurd (h.symm.trans hat) (hstart next)
  have houtcome := runStep_outcome c input s
  generalize s.runStep c input = after at houtcome ⊢
  cases houtcome with
  | opened =>
      constructor
      · exact .starting hstate (.inr ⟨0, rfl⟩) hsent hcalls
      · exact .inr (.stay _)
      · exact fun hleft => absurd hleft hnot
  | refused =>
      constructor
      · exact .caught rfl trivial
      · exact .inl rfl
      · exact fun hleft => absurd hleft hnot
  | @started next =>
      constructor
      · exact .starting hstate (.inr ⟨next + 1, rfl⟩) hsent hcalls
      · exact .inr (.stay _)
      · exact fun hleft => absurd hleft hnot
  | served =>
      constructor
      · refine .running rfl trivial hsent fun call hmem => ?_
        change call ∈ s.calls at hmem
        rw [hcalls] at hmem
        cases hmem
      · exact .inr (hstate ▸ .start)
      · exact fun hleft => absurd hleft hnot
  | startFailed | sweeperFailed | throws | removeFailed => exact hcatch rfl
  | drained h hrunning =>
      rw [hstate] at hrunning
      cases hrunning
  | stopped h | unready _ h | undealt _ h | dealt _ h | finished h | round h | forced h
  | forcedAll h | rescued h | joined h => exact hother h (by simp) (by simp)
  | goes h =>
      cases h with
      | look h | stopped h | checkNext h | checked h | handled h | accept h | skip h
      | acceptAgain h | accepted h | serving h | probe h | patient h | forceNext h | rescued h
      | joining h | returned h => exact hother h (by simp) (by simp)

/-- The loop of `Run` in state `Running`. -/
theorem follows_runStep_running {s : TcpServer Q} (hstate : s.state = .running)
    (hpoint : ofRunning s.point) (hsent : s.forceStopSent = false)
    (hcalls : ∀ call ∈ s.calls, call.ofClient = true) (c : ServerSetup) (input : RunInput) :
    s.Follows (s.runStep c input) := by
  have hnot : ¬ s.Left := not_left hstate (by decide) (by decide)
  have hcatch {t : TcpServer Q} (ht : t.calls = s.calls) : s.Follows t.catchException :=
    follows_catchException (fun hleft => absurd hleft hnot) ht
  have hto {point : RunPoint} (hafter : ofRunning point) : s.Follows { s with point } :=
    follows_running hstate hstate hafter hsent hcalls
  have hother {point : RunPoint} (h : s.point = point) (hnone : ¬ ofRunning point) {P : Prop} :
      P := absurd (h ▸ hpoint) hnone
  have hmore {call : MainCall} (hclient : call.ofClient = true) {calls : List MainCall}
      (hcalls : ∀ call ∈ calls, call.ofClient = true) :
      ∀ other ∈ calls ++ [call], other.ofClient = true := by
    intro other hmem
    obtain hmem | hmem := List.mem_append.mp hmem
    · exact hcalls other hmem
    · rw [List.mem_singleton.mp hmem]
      exact hclient
  have houtcome := runStep_outcome c input s
  generalize s.runStep c input = after at houtcome ⊢
  cases houtcome with
  | throws | removeFailed | startFailed | sweeperFailed => exact hcatch rfl
  | drained =>
      constructor
      · exact .stopping rfl rfl (Nat.zero_le _) hsent ⟨s.calls, by simp, hcalls⟩
      · exact .inr (by rw [hstate]; exact .drain)
      · exact fun hleft => absurd hleft hnot
  | unready | undealt => exact follows_running hstate hstate trivial hsent (hmore rfl hcalls)
  | dealt => exact follows_running hstate hstate trivial hsent (hmore rfl (hmore rfl hcalls))
  | finished h hdraining | round h hdraining =>
      rw [hstate] at hdraining
      cases hdraining
  | opened h | refused h | started h | served h | stopped h | forced h | forcedAll h
  | rescued h | joined h => exact hother h id
  | goes h =>
      cases h with
      | handled => exact hto rfl
      | look | checkNext | checked | accept | skip | accepted | serving | acceptAgain =>
          exact hto trivial
      | probe h hdraining | patient h hdraining =>
          rw [hstate] at hdraining
          cases hdraining
      | stopped h | forceNext h | rescued h | joining h | returned h => exact hother h id

theorem Recorded.stop {s : TcpServer Q} {next : Nat} (h : s.Recorded next []) {after : TcpServer Q}
    (hcalls : after.calls = s.calls ++ [.stop next]) : after.Recorded (next + 1) [] := by
  obtain ⟨clients, heq, hclients⟩ := h
  refine ⟨clients, ?_, hclients⟩
  rw [hcalls, heq, List.range_succ]
  simp

theorem Recorded.force {s : TcpServer Q} {stops : Nat} {forced : List MainCall}
    (h : s.Recorded stops forced) {after : TcpServer Q} {call : MainCall}
    (hcalls : after.calls = s.calls ++ [call]) : after.Recorded stops (forced ++ [call]) := by
  obtain ⟨clients, heq, hclients⟩ := h
  refine ⟨clients, ?_, hclients⟩
  rw [hcalls, heq]
  simp

theorem clientCalls_append {s after : TcpServer Q} {call : MainCall}
    (hcalls : after.calls = s.calls ++ [call]) (hcall : call.ofClient = false) :
    after.clientCalls = s.clientCalls := by
  rw [clientCalls, hcalls, List.filter_append, List.filter_cons_of_neg (by simp [hcall])]
  exact List.append_nil _

/-- A step within `Draining`. -/
theorem follows_draining {s after : TcpServer Q} (h : s.state = .draining)
    (hafter : after.state = .draining) (hcoordinated : after.Coordinated)
    (hcalls : after.clientCalls = s.clientCalls) : s.Follows after where
  coordinated := hcoordinated
  moves := .inr (by rw [h, hafter]; exact .stay _)
  left _ := ⟨.inl hafter, hcalls⟩

/-- The loop over the sub reactors in `BeginGracefulShutdown`. -/
theorem follows_stopSubReactors {s : TcpServer Q} (hstate : s.state = .draining) {next : Nat}
    {ready : List ReadyEvent} (hpoint : s.point = .stopSubReactors next ready)
    (hle : next ≤ s.subReactors.length) (hsent : s.forceStopSent = false)
    (hcalls : s.Recorded next []) (c : ServerSetup) (input : RunInput) :
    s.Follows (s.runStep c input) := by
  simp only [runStep, hpoint, stopSubReactors]
  cases hget : s.subReactors[next]? with
  | some r =>
      obtain ⟨hlt, -⟩ := List.getElem?_eq_some_iff.mp hget
      simp only
      apply follows_draining hstate
      · exact hstate
      · refine .stopping hstate rfl ?_ hsent (hcalls.stop rfl)
        change next + 1 ≤ (s.subReactors.set next _).length
        rw [List.length_set]
        exact hlt
      · exact clientCalls_append rfl rfl
  | none =>
      have hlast : next = s.subReactors.length :=
        Nat.le_antisymm hle (List.getElem?_eq_none_iff.mp hget)
      subst hlast
      simp only
      apply follows_draining hstate
      · exact hstate
      · exact .draining hstate trivial hcalls (.inr ⟨hsent, rfl⟩)
      · rfl

/-- The loop over the sub reactors that `CheckShutdownProgress` forces to stop. -/
theorem follows_forceStopSubReactors {s : TcpServer Q} (hstate : s.state = .draining) {next : Nat}
    {forced : List MainCall} (hpoint : s.point = .forceStopSubReactors next)
    (hle : next ≤ s.subReactors.length)
    (hcalls : s.Recorded s.subReactors.length forced) (hforced : s.Forced next forced)
    (c : ServerSetup) (input : RunInput) : s.Follows (s.runStep c input) := by
  obtain ⟨now, reactors, hdeadline, hsublist, rfl⟩ := hforced
  simp only [runStep, hpoint, forceStopSubReactors]
  cases hget : s.subReactors[next]? with
  | some r =>
      obtain ⟨hlt, -⟩ := List.getElem?_eq_some_iff.mp hget
      simp only
      split
      · apply follows_draining hstate
        · exact hstate
        · refine .forcing hstate rfl hlt hcalls ⟨now, reactors, hdeadline, ?_, rfl⟩
          rw [List.range_succ]
          exact hsublist.trans (List.sublist_append_left ..)
        · rfl
      · apply follows_draining hstate
        · exact hstate
        · have hrecorded : Recorded { s with calls := s.calls ++ [.forceStop next] }
              s.subReactors.length _ := hcalls.force rfl
          refine .forcing hstate rfl ?_ (List.length_set.symm ▸ hrecorded)
            ⟨now, reactors ++ [next], hdeadline, ?_, by simp [withSubReactor]⟩
          · change next + 1 ≤ (s.subReactors.set next _).length
            rw [List.length_set]
            exact hlt
          · rw [List.range_succ]
            exact hsublist.append (List.Sublist.refl _)
        · exact clientCalls_append rfl rfl
  | none =>
      have hlast : next = s.subReactors.length :=
        Nat.le_antisymm hle (List.getElem?_eq_none_iff.mp hget)
      subst hlast
      simp only
      apply follows_draining hstate
      · exact hstate
      · exact .draining hstate trivial hcalls
          (.inl ⟨rfl, now, reactors, hdeadline, hsublist, rfl⟩)
      · rfl

section Draining

variable {s : TcpServer Q} {forced : List MainCall} (hstate : s.state = .draining)
  (hcalls : s.Recorded s.subReactors.length forced)
  (hforced : s.forceStopSent = true ∧ s.Forced s.subReactors.length forced ∨
    s.forceStopSent = false ∧ forced = [])
include hstate hcalls hforced

/-- The loop of `Run` goes on in state `Draining`. -/
theorem follows_point {point : RunPoint} (hpoint : s.ofDraining point) :
    s.Follows { s with point } := by
  apply follows_draining hstate
  · exact hstate
  · exact .draining hstate hpoint hcalls hforced
  · rfl

/-- All sub reactors have been found stopped. -/
theorem follows_finish (hall : s.AllStopped) :
    s.Follows { s with state := .stopped, point := .joinSubReactors } := by
  constructor
  · refine .stopped rfl (.inl rfl) hall hcalls ?_
    obtain ⟨-, hforced⟩ | ⟨-, hnone⟩ := hforced
    · exact .inr hforced
    · exact .inl hnone
  · exact .inr (by rw [hstate]; exact .finish)
  · exact fun _ => ⟨.inr rfl, rfl⟩

/-- The loop of `Run` in state `Draining`, but for the calls on the sub reactors. -/
theorem follows_runStep_draining (hpoint : s.ofDraining s.point) (c : ServerSetup)
    (input : RunInput) : s.Follows (s.runStep c input) := by
  have hto {point : RunPoint} (hat : s.ofDraining point) : s.Follows { s with point } :=
    follows_point hstate hcalls hforced hat
  have hother {point : RunPoint} (h : s.point = point) (hnone : ¬ s.ofDraining point) {P : Prop} :
      P := absurd (h ▸ hpoint) hnone
  have houtcome := runStep_outcome c input s
  generalize s.runStep c input = after at houtcome ⊢
  cases houtcome with
  | throws => exact follows_catchException id rfl
  | removeFailed h hrunning | drained h hrunning =>
      rw [hstate] at hrunning
      cases hrunning
  | finished h _ hlast =>
      rw [h] at hpoint
      apply follows_finish hstate hcalls hforced
      intro r hmem
      obtain ⟨i, hi⟩ := List.getElem?_of_mem hmem
      obtain ⟨hlt, -⟩ := List.getElem?_eq_some_iff.mp hi
      exact hpoint rfl i r (Nat.lt_of_lt_of_le hlt hlast) hi
  | round h _ hsent hlate =>
      obtain ⟨hsent', -⟩ | ⟨-, rfl⟩ := hforced
      · rw [hsent] at hsent'
        cases hsent'
      · apply follows_draining hstate
        · exact hstate
        · exact .forcing hstate rfl (Nat.zero_le _) (hcalls.force rfl)
            ⟨input.now, [], hlate, List.nil_sublist _, rfl⟩
        · exact clientCalls_append rfl rfl
  | opened h | refused h | started h | startFailed h | served h | sweeperFailed h | stopped h
  | unready _ h | undealt _ h | dealt _ h | forced h | forcedAll h | rescued h | joined h =>
      exact hother h id
  | goes h =>
      cases h with
      | look | checkNext | checked | skip | patient => exact hto trivial
      | handled => exact hto fun _ i r hlt => absurd hlt (Nat.not_lt_zero i)
      | @probe next all r h _ hget =>
          rw [h] at hpoint
          apply hto
          intro hall i r' hlt hget'
          rw [Bool.and_eq_true, beq_iff_eq] at hall
          obtain hbefore | rfl := Nat.lt_succ_iff_lt_or_eq.mp hlt
          · exact hpoint hall.1 i r' hbefore hget'
          · rw [hget] at hget'
            cases hget'
            exact hall.2
      | accept h hrunning =>
          rw [hstate] at hrunning
          cases hrunning
      | serving h hserving => exact absurd hstate hserving
      | stopped h | acceptAgain h | accepted h | forceNext h | rescued h | joining h
      | returned h => exact hother h id

end Draining

/-- Joining the sub reactors, all of which have been found stopped. -/
theorem follows_joinSubReactors {s : TcpServer Q} {forced : List MainCall}
    (hstate : s.state = .stopped) (hat : s.point = .joinSubReactors) (hall : s.AllStopped)
    (hcalls : s.Recorded s.subReactors.length forced)
    (hforced : forced = [] ∨ s.Forced s.subReactors.length forced)
    (c : ServerSetup) (input : RunInput) : s.Follows (s.runStep c input) := by
  simp only [runStep, hat, joinSubReactors]
  split
  · constructor
    · exact .stopped rfl (.inr rfl) hall hcalls hforced
    · exact .inr (by rw [hstate]; exact .stay _)
    · exact fun _ => ⟨.inr rfl, rfl⟩
  · constructor
    · exact .stopped hstate (.inl hat) hall hcalls hforced
    · exact .inr (.stay _)
    · exact fun hleft => ⟨hleft, rfl⟩

/-- The `catch` clause of `Run`. -/
theorem follows_runStep_caught {s : TcpServer Q} (hcaught : s.caught = true)
    (hpoint : ofException s.point) (c : ServerSetup) (input : RunInput) :
    s.Follows (s.runStep c input) := by
  have hother {point : RunPoint} (h : s.point = point) (hnone : ¬ ofException point) {P : Prop} :
      P := absurd (h ▸ hpoint) hnone
  have houtcome := runStep_outcome c input s
  generalize s.runStep c input = after at houtcome ⊢
  cases houtcome with
  | rescued =>
      constructor
      · exact .caught hcaught trivial
      · exact .inl hcaught
      · exact fun hleft => ⟨hleft, clientCalls_append rfl rfl⟩
  | joined =>
      constructor
      · exact .caught hcaught trivial
      · exact .inl hcaught
      · exact fun _ => ⟨.inr rfl, rfl⟩
  | throws => exact follows_catchException id rfl
  | drained h | removeFailed h =>
      obtain h | ⟨next, h⟩ := h
      · exact hother h id
      · exact hother h id
  | opened h | refused h | started h | startFailed h | served h | sweeperFailed h | stopped h
  | unready _ h | undealt _ h | dealt _ h | finished h | round h | forced h | forcedAll h =>
      exact hother h id
  | goes h =>
      cases h with
      | rescued | joining | returned =>
          exact ⟨.caught hcaught trivial, .inl hcaught, fun hleft => ⟨hleft, rfl⟩⟩
      | look h | stopped h | checkNext h | checked h | handled h | accept h | skip h
      | acceptAgain h | accepted h | serving h | probe h | patient h | forceNext h =>
          exact hother h id

/-- Every step of the thread in `Run` keeps to the shutdown. -/
theorem Coordinated.runStep {s : TcpServer Q} (h : s.Coordinated) (c : ServerSetup)
    (input : RunInput) : s.Follows (s.runStep c input) := by
  cases h with
  | starting hstate hpoint hsent hcalls =>
      exact follows_runStep_starting hstate hpoint hsent hcalls c input
  | running hstate hpoint hsent hcalls =>
      exact follows_runStep_running hstate hpoint hsent hcalls c input
  | stopping hstate hpoint hle hsent hcalls =>
      exact follows_stopSubReactors hstate hpoint hle hsent hcalls c input
  | draining hstate hpoint hcalls hforced =>
      exact follows_runStep_draining hstate hcalls hforced hpoint c input
  | forcing hstate hpoint hle hcalls hforced =>
      exact follows_forceStopSubReactors hstate hpoint hle hcalls hforced c input
  | stopped hstate hpoint hall hcalls hforced =>
      obtain hat | hat := hpoint
      · exact follows_joinSubReactors hstate hat hall hcalls hforced c input
      · unfold TcpServer.runStep
        rw [hat]
        exact ⟨.stopped hstate (.inr hat) hall hcalls hforced, .inr (.stay _),
          fun hleft => ⟨hleft, rfl⟩⟩
  | caught hcaught hpoint => exact follows_runStep_caught hcaught hpoint c input

/-- A sub reactor that takes a step does not come back from `Stopped`. -/
theorem Coordinated.withSubReactor {s : TcpServer Q} (h : s.Coordinated) {i : Nat}
    {r after : SubReactor Q} (hget : s.subReactors[i]? = some r)
    (hkept : r.publishedState = .stopped → after.publishedState = .stopped) :
    (s.withSubReactor i after).Coordinated := by
  have hlength : (s.withSubReactor i after).subReactors.length = s.subReactors.length :=
    List.length_set
  have hsubReactor {j : Nat} {r' : SubReactor Q}
      (hstopped : ∀ r', s.subReactors[j]? = some r' → r'.publishedState = .stopped)
      (hget' : (s.withSubReactor i after).subReactors[j]? = some r') :
      r'.publishedState = .stopped := by
    change (s.subReactors.set i after)[j]? = some r' at hget'
    rw [List.getElem?_set] at hget'
    split at hget'
    · next heq =>
      subst heq
      split at hget'
      · cases hget'
        exact hkept (hstopped r hget)
      · cases hget'
    · exact hstopped r' hget'
  cases h with
  | starting hstate hpoint hsent hcalls => exact .starting hstate hpoint hsent hcalls
  | running hstate hpoint hsent hcalls => exact .running hstate hpoint hsent hcalls
  | stopping hstate hpoint hle hsent hcalls =>
      exact .stopping hstate hpoint (hlength.symm ▸ hle) hsent hcalls
  | draining hstate hpoint hcalls hforced =>
      refine .draining hstate ?_ (hlength.symm ▸ hcalls) (hlength.symm ▸ hforced)
      change (s.withSubReactor i after).ofDraining s.point
      cases hat : s.point with
      | checkShutdownProgress next allSubReactorStopped =>
          rw [hat] at hpoint
          intro hall j r' hlt hget'
          exact hsubReactor (fun r' hold => hpoint hall j r' hlt hold) hget'
      | _ =>
          rw [hat] at hpoint
          exact hpoint
  | forcing hstate hpoint hle hcalls hforced =>
      exact .forcing hstate hpoint (hlength.symm ▸ hle) (hlength.symm ▸ hcalls) hforced
  | stopped hstate hpoint hall hcalls hforced =>
      refine .stopped hstate hpoint (fun r' hmem => ?_) (hlength.symm ▸ hcalls)
        (hlength.symm ▸ hforced)
      obtain ⟨j, hj⟩ := List.getElem?_of_mem hmem
      exact hsubReactor (fun r' hold => hall r' (List.mem_of_getElem? hold)) hj
  | caught hcaught hpoint => exact .caught hcaught hpoint

/-- Every step of the server keeps to the shutdown. -/
theorem Coordinated.step {s : TcpServer Q} (h : s.Coordinated)
    (htidy : ∀ r ∈ s.subReactors, r.Tidy) (c : ServerSetup) (action : Action Q) :
    s.Follows (s.step c action) := by
  cases action with
  | run input => exact h.runStep c input
  | stop =>
      constructor
      · cases h with
        | starting hstate hpoint hsent hcalls => exact .starting hstate hpoint hsent hcalls
        | running hstate hpoint hsent hcalls => exact .running hstate hpoint hsent hcalls
        | stopping hstate hpoint hle hsent hcalls =>
            exact .stopping hstate hpoint hle hsent hcalls
        | draining hstate hpoint hcalls hforced =>
            exact .draining hstate hpoint hcalls hforced
        | forcing hstate hpoint hle hcalls hforced =>
            exact .forcing hstate hpoint hle hcalls hforced
        | stopped hstate hpoint hall hcalls hforced =>
            exact .stopped hstate hpoint hall hcalls hforced
        | caught hcaught hpoint => exact .caught hcaught hpoint
      · exact .inr (.stay _)
      · exact fun hleft => ⟨hleft, rfl⟩
  | subReactor i input =>
      simp only [TcpServer.step]
      cases hget : s.subReactors[i]? with
      | none => exact ⟨h, .inr (.stay _), fun hleft => ⟨hleft, rfl⟩⟩
      | some r =>
          constructor
          · apply h.withSubReactor hget
            intro hstopped
            exact (SubReactor.stopped_step (htidy r (List.mem_of_getElem? hget)) hstopped
              c.networkOptions (.iterate input)).1
          · exact .inr (.stay _)
          · exact fun hleft => ⟨hleft, rfl⟩

/-! ### Runs -/

theorem tidy_run (c : ServerSetup) (store : Store Q) (actions : List (Action Q)) :
    ∀ r ∈ ((created c store).run c actions).subReactors, r.Tidy :=
  subReactors_run c (fun _ h step => h.step c.networkOptions step)
    (fun controlFd => SubReactor.tidy_created c.backend controlFd store) actions

/-- A server whose sub reactors keep their invariant, and that keeps to the shutdown. -/
def Orderly (s : TcpServer Q) : Prop := (∀ r ∈ s.subReactors, r.Tidy) ∧ s.Coordinated

theorem Orderly.step {s : TcpServer Q} (h : s.Orderly) (c : ServerSetup) (action : Action Q) :
    (s.step c action).Orderly :=
  ⟨subReactors_step c (fun _ htidy step => htidy.step c.networkOptions step) h.1 action,
    (h.2.step h.1 c action).coordinated⟩

theorem orderly_run (c : ServerSetup) (store : Store Q) (actions : List (Action Q)) :
    ((created c store).run c actions).Orderly := by
  apply (machine c).run_invariant (I := Orderly)
  · intro s h action _
    exact h.step c action
  · exact ⟨tidy_run c store [], .starting rfl (.inl rfl) rfl rfl⟩

/-- Once `Running` is left, no client is accepted or handed out. -/
theorem clientCalls_run {s : TcpServer Q} (h : s.Orderly) (hleft : s.Left) (c : ServerSetup)
    (more : List (Action Q)) : (s.run c more).clientCalls = s.clientCalls := by
  have hall : (s.run c more).Orderly ∧ (s.run c more).Left ∧
      (s.run c more).clientCalls = s.clientCalls := by
    apply (machine c).run_invariant (I := fun after =>
      after.Orderly ∧ after.Left ∧ after.clientCalls = s.clientCalls)
    · rintro after ⟨horderly, hafter, hcalls⟩ action -
      obtain ⟨hnext, hsame⟩ := (horderly.2.step horderly.1 c action).left hafter
      exact ⟨horderly.step c action, hnext, hsame.trans hcalls⟩
    · exact ⟨h, hleft, rfl⟩
  exact hall.2.2

/-- The calls of a server whose `Run` has caught no exception: those for clients, then one
`Stop` to each sub reactor in turn, then one round of `ForceStop` after the deadline. -/
theorem Coordinated.calls {s : TcpServer Q} (h : s.Coordinated) (hcaught : s.caught = false) :
    ∃ stops forced, stops ≤ s.subReactors.length ∧ s.Recorded stops forced ∧
      (forced = [] ∨ s.Forced s.subReactors.length forced) := by
  cases h with
  | starting hstate hpoint hsent hcalls =>
      refine ⟨0, [], Nat.zero_le _, ⟨[], hcalls, nofun⟩, .inl rfl⟩
  | running hstate hpoint hsent hcalls =>
      exact ⟨0, [], Nat.zero_le _, ⟨s.calls, by simp, hcalls⟩, .inl rfl⟩
  | stopping hstate hpoint hle hsent hcalls => exact ⟨_, [], hle, hcalls, .inl rfl⟩
  | draining hstate hpoint hcalls hforced =>
      refine ⟨_, _, Nat.le_refl _, hcalls, ?_⟩
      obtain ⟨-, hforced⟩ | ⟨-, hnone⟩ := hforced
      · exact .inr hforced
      · exact .inl hnone
  | forcing hstate hpoint hle hcalls hforced =>
      obtain ⟨now, reactors, hdeadline, hsublist, heq⟩ := hforced
      refine ⟨_, _, Nat.le_refl _, hcalls, .inr ⟨now, reactors, hdeadline, ?_, heq⟩⟩
      exact hsublist.trans (List.range_sublist.mpr hle)
  | stopped hstate hpoint hall hcalls hforced => exact ⟨_, _, Nat.le_refl _, hcalls, hforced⟩
  | caught hcaught' hpoint =>
      rw [hcaught] at hcaught'
      cases hcaught'

theorem Coordinated.allStopped {s : TcpServer Q} (h : s.Coordinated) (hcaught : s.caught = false)
    (hstopped : s.state = .stopped) : s.AllStopped := by
  cases h with
  | stopped hstate hpoint hall hcalls hforced => exact hall
  | caught hcaught' hpoint =>
      rw [hcaught] at hcaught'
      cases hcaught'
  | starting hstate _ _ _ => exact absurd (hstate.symm.trans hstopped) nofun
  | running hstate _ _ _ => exact absurd (hstate.symm.trans hstopped) nofun
  | stopping hstate _ _ _ _ => exact absurd (hstate.symm.trans hstopped) nofun
  | draining hstate _ _ _ => exact absurd (hstate.symm.trans hstopped) nofun
  | forcing hstate _ _ _ _ => exact absurd (hstate.symm.trans hstopped) nofun

/-- The coordination of the shutdown. A started sub reactor follows its transitions, and
has no client when it has published `Stopped`. Unless an exception is caught, the main
reactor follows its own; once it has left `Running` it accepts no client and hands none
out; it sends each sub reactor at most one `Stop`, and at most one round of `ForceStop`,
after the deadline; and when it is stopped, all sub reactors are, and stay without
clients and without executing anything. -/
theorem shutdown_coordination (c : ServerSetup) (store : Store Q) (actions : List (Action Q)) :
    let s := (created c store).run c actions
    (∀ r ∈ s.subReactors, r.publishedState = .stopped → r.clients = ∅) ∧
    (∀ (more : List (Action Q)) (i : Nat) (r after : SubReactor Q), s.subReactors[i]? = some r →
      (s.run c more).subReactors[i]? = some after → r.publishedState ≠ .created →
        SubReactor.Advances r.publishedState after.publishedState) ∧
    (∀ action, (s.step c action).caught = true ∨ s.state.Moves (s.step c action).state) ∧
    (s.state = .draining ∨ s.state = .stopped → ∀ more,
      (s.run c more).clientCalls = s.clientCalls) ∧
    (s.caught = false → ∃ clients stops forced,
      s.calls = clients ++ (List.range stops).map .stop ++ forced ∧
      (∀ call ∈ clients, call.ofClient = true) ∧ stops ≤ s.subReactors.length ∧
      (forced = [] ∨ ∃ now reactors, s.shutdownDeadline ≤ now ∧
        List.Sublist reactors (List.range s.subReactors.length) ∧
        forced = .forceRound now s.shutdownDeadline :: reactors.map .forceStop)) ∧
    (s.caught = false → s.state = .stopped →
      (∀ r ∈ s.subReactors, r.publishedState = .stopped) ∧
      ∀ (more : List (Action Q)) (i : Nat) (r after : SubReactor Q), s.subReactors[i]? = some r →
        (s.run c more).subReactors[i]? = some after →
          after.clients = ∅ ∧ after.departed = r.departed ∧ after.store = r.store) := by
  intro s
  obtain ⟨htidy, hcoordinated⟩ : s.Orderly := orderly_run c store actions
  refine ⟨fun r hmem hstopped => ?_, fun more i r after hget hafter hstarted => ?_,
    fun action => ?_, fun hleft more => ?_, fun hcaught => ?_, fun hcaught hstopped => ?_⟩
  · exact (htidy r hmem).stopped ((htidy r hmem).published ▸ hstopped)
  · obtain ⟨steps, hrun⟩ := subReactor_run c hget more
    rw [hrun] at hafter
    cases hafter
    exact SubReactor.advances_run (htidy r (List.mem_of_getElem? hget)) hstarted _ steps
  · exact (hcoordinated.step htidy c action).moves
  · exact clientCalls_run ⟨htidy, hcoordinated⟩ hleft c more
  · obtain ⟨stops, forced, hle, ⟨clients, hcalls, hclients⟩, hforced⟩ :=
      hcoordinated.calls hcaught
    exact ⟨clients, stops, forced, hcalls, hclients, hle, hforced⟩
  · have hall := hcoordinated.allStopped hcaught hstopped
    refine ⟨hall, fun more i r after hget hafter => ?_⟩
    obtain ⟨steps, hrun⟩ := subReactor_run c hget more
    rw [hrun] at hafter
    cases hafter
    have hmem := List.mem_of_getElem? hget
    exact SubReactor.stopped_run (htidy r hmem) (hall r hmem) _ steps

/-- A server with one client is stopped: the sub reactor closes the client, and the main
reactor returns from `Run`. -/
example :
    let control := SubReactor.readPing [⟨3, { read := true }⟩]
    let s := (created oneSubReactor Store.empty).run oneSubReactor
      (acceptClient ++ List.replicate 4 (smoothly [] .wouldBlock 0) ++ [.stop] ++
        List.replicate 10 (smoothly [] .wouldBlock 0) ++ [.subReactor 0 control] ++
        List.replicate 8 (smoothly [] .wouldBlock 0))
    s.state = .stopped ∧ s.caught = false ∧
      s.calls = [.accept 7, .enqueClient 0 7, .stop 0] := by
  decide +kernel

end TcpServer

end TinyKv
