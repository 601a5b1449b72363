import TinyKv.Net.TcpServer

/-!
# Errors of accept

`AcceptNewClients` tells the errors of `accept` apart by `errno`. The pending connection may be
gone, or the process may be short of descriptors or memory; the server is to go on then.
-/

namespace TinyKv

variable {Q : ExpirationQueue}

/-- The values of `errno` after `accept`: those that concern the call or the pending connection,
those of a temporary shortage, and all others. -/
inductive Errno where
  | eintr
  | eagain
  | ewouldblock
  | econnaborted
  | eproto
  | emfile
  | enfile
  | enobufs
  | enomem
  | other (code : Nat)
deriving DecidableEq, Repr

/-- An outcome of `accept`, and of the initialisation of an accepted client. -/
inductive AcceptOutcome where
  | client (fd : Int) (initialised : Bool)
  | error (errno : Errno)
deriving DecidableEq, Repr

/-- How `AcceptNewClients` tells the outcomes apart. -/
def AcceptOutcome.result : AcceptOutcome → AcceptResult
  | .client fd initialised => .client fd initialised
  | .error errno =>
      if errno = .eintr then
        .interrupted
      else if errno = .eagain ∨ errno = .ewouldblock then
        .wouldBlock
      else
        .failed

namespace TcpServer

/-- `AcceptNewClients` while `accept` has the given outcomes; after its return, or after an
exception, the others are not asked for. -/
def acceptClients (c : ServerSetup) (input : RunInput) :
    List AcceptOutcome → TcpServer Q → TcpServer Q
  | [], s => s
  | outcome :: rest, s =>
      match s.point with
      | .acceptNewClients acceptedCount ready =>
          acceptClients c input rest
            (s.acceptNewClients c { input with accept := outcome.result } acceptedCount ready)
      | _ => s

/-- An `accept` within the budget fails with an error that is not expected. -/
def failsUnexpectedly : Nat → List AcceptOutcome → Bool
  | _, [] => false
  | 0, _ => false
  | budget + 1, .client _ _ :: rest => failsUnexpectedly budget rest
  | budget + 1, .error errno :: rest =>
      if errno = .eintr then
        failsUnexpectedly (budget + 1) rest
      else
        !(errno == .eagain || errno == .ewouldblock)

/-- The server goes on, and so do its sub reactors, with all the connections they own. -/
structure GoesOn (s s' : TcpServer Q) : Prop where
  caught : s'.caught = false
  running : s'.state = .running
  subReactors : ∀ (i : Nat) (r : SubReactor Q), s.subReactors[i]? = some r →
    ∃ r' : SubReactor Q, s'.subReactors[i]? = some r' ∧ r'.state = r.state ∧
      r'.clients = r.clients ∧ r.pendingClients <+: r'.pendingClients ∧
      r'.stopRequested = r.stopRequested ∧ r'.forceStopRequested = r.forceStopRequested

theorem GoesOn.refl {s : TcpServer Q} (hcaught : s.caught = false) (hstate : s.state = .running) :
    GoesOn s s where
  caught := hcaught
  running := hstate
  subReactors _ r hget := ⟨r, hget, rfl, rfl, List.prefix_refl _, rfl, rfl⟩

theorem GoesOn.trans {a b c : TcpServer Q} (hab : GoesOn a b) (hbc : GoesOn b c) :
    GoesOn a c where
  caught := hbc.caught
  running := hbc.running
  subReactors i r hget := by
    obtain ⟨r₁, hget₁, hstate₁, hclients₁, hpending₁, hstop₁, hforce₁⟩ :=
      hab.subReactors i r hget
    obtain ⟨r₂, hget₂, hstate₂, hclients₂, hpending₂, hstop₂, hforce₂⟩ :=
      hbc.subReactors i r₁ hget₁
    exact ⟨r₂, hget₂, hstate₂.trans hstate₁, hclients₂.trans hclients₁,
      hpending₁.trans hpending₂, hstop₂.trans hstop₁, hforce₂.trans hforce₁⟩

/-- A client that a sub reactor is handed joins its pending clients, or is rejected. -/
theorem goesOn_enqueClient {s s' : TcpServer Q} (hcaught : s'.caught = false)
    (hstate : s'.state = .running) {i : Nat} {r : SubReactor Q} (hget : s.subReactors[i]? = some r)
    {fd : Int} (hafter : s'.subReactors = s.subReactors.set i (r.enqueClient fd)) :
    GoesOn s s' where
  caught := hcaught
  running := hstate
  subReactors j r' hget' := by
    rw [hafter, List.getElem?_set]
    by_cases hj : i = j
    · subst hj
      rw [hget] at hget'
      cases hget'
      obtain ⟨hlt, -⟩ := List.getElem?_eq_some_iff.mp hget
      refine ⟨r.enqueClient fd, by rw [if_pos rfl, if_pos hlt], ?_⟩
      rw [SubReactor.enqueClient]
      split_ifs
      · exact ⟨rfl, rfl, List.prefix_refl _, rfl, rfl⟩
      · exact ⟨rfl, rfl, List.prefix_refl _, rfl, rfl⟩
      · exact ⟨rfl, rfl, List.prefix_append _ _, rfl, rfl⟩
    · rw [if_neg hj]
      exact ⟨r', hget', rfl, rfl, List.prefix_refl _, rfl, rfl⟩

/-- An accepted client is handed out or closed, and the loop goes on. -/
theorem goesOn_client (c : ServerSetup) (input : RunInput) {fd : Int} {initialised : Bool}
    (haccept : input.accept = .client fd initialised) {acceptedCount : Nat}
    (hbudget : acceptedCount < c.networkOptions.maxAcceptsPerEvent) (ready : List ReadyEvent)
    {s : TcpServer Q} (hcaught : s.caught = false) (hstate : s.state = .running) :
    GoesOn s (s.acceptNewClients c input acceptedCount ready) ∧
      (s.acceptNewClients c input acceptedCount ready).point =
        .acceptNewClients (acceptedCount + 1) ready := by
  rw [acceptNewClients, if_neg (Nat.not_le.mpr hbudget), haccept]
  simp only
  cases initialised with
  | false => exact ⟨⟨hcaught, hstate, (GoesOn.refl hcaught hstate).subReactors⟩, rfl⟩
  | true =>
      simp only [Bool.not_true, Bool.false_eq_true, if_false]
      cases hreactor : s.subReactors[s.nextSubReactorIndex]? with
      | none => exact ⟨⟨hcaught, hstate, (GoesOn.refl hcaught hstate).subReactors⟩, rfl⟩
      | some reactor => exact ⟨goesOn_enqueClient hcaught hstate hreactor rfl, rfl⟩

/-- The loop has ended at the point after it, and no outcome is asked for any more. -/
theorem acceptClients_of_left (c : ServerSetup) (input : RunInput) (outcomes : List AcceptOutcome)
    {s : TcpServer Q}
    (hpoint : ∀ acceptedCount ready, s.point ≠ .acceptNewClients acceptedCount ready) :
    s.acceptClients c input outcomes = s := by
  cases outcomes with
  | nil => rfl
  | cons outcome rest =>
      rw [acceptClients]
      split
      · rename_i acceptedCount ready heq
        exact absurd heq (hpoint acceptedCount ready)
      · rfl

/-- What one outcome does within the budget. -/
theorem acceptClients_cons (c : ServerSetup) (input : RunInput) (outcome : AcceptOutcome)
    (rest : List AcceptOutcome) {s : TcpServer Q} {acceptedCount : Nat} {ready : List ReadyEvent}
    (hpoint : s.point = .acceptNewClients acceptedCount ready) :
    s.acceptClients c input (outcome :: rest) =
      (s.acceptNewClients c { input with accept := outcome.result } acceptedCount
        ready).acceptClients c input rest := by
  rw [acceptClients, hpoint]

/-- With the budget spent, the loop ends without another call. -/
theorem goesOn_of_spent (c : ServerSetup) (input : RunInput) (outcomes : List AcceptOutcome)
    {s : TcpServer Q} {acceptedCount : Nat} {ready : List ReadyEvent}
    (hpoint : s.point = .acceptNewClients acceptedCount ready)
    (hspent : c.networkOptions.maxAcceptsPerEvent ≤ acceptedCount) (hcaught : s.caught = false)
    (hstate : s.state = .running) : GoesOn s (s.acceptClients c input outcomes) := by
  cases outcomes with
  | nil => exact GoesOn.refl hcaught hstate
  | cons outcome rest =>
      rw [acceptClients_cons c input outcome rest hpoint, acceptNewClients, if_pos hspent,
        acceptClients_of_left]
      · exact ⟨hcaught, hstate, (GoesOn.refl hcaught hstate).subReactors⟩
      · nofun

/-- After EINTR `accept` is called again, with the budget unchanged. -/
theorem acceptClients_eintr (c : ServerSetup) (input : RunInput) (rest : List AcceptOutcome)
    {s : TcpServer Q} {acceptedCount : Nat} {ready : List ReadyEvent}
    (hpoint : s.point = .acceptNewClients acceptedCount ready)
    (hbudget : acceptedCount < c.networkOptions.maxAcceptsPerEvent) :
    s.acceptClients c input (.error .eintr :: rest) = s.acceptClients c input rest := by
  rw [acceptClients_cons c input _ rest hpoint, acceptNewClients,
    if_neg (Nat.not_le.mpr hbudget)]
  rfl

/-- An error other than EINTR ends the loop, normally or by an exception. -/
theorem acceptClients_error (c : ServerSetup) (input : RunInput) {errno : Errno}
    (hother : errno ≠ .eintr) (rest : List AcceptOutcome) {s : TcpServer Q} {acceptedCount : Nat}
    {ready : List ReadyEvent} (hpoint : s.point = .acceptNewClients acceptedCount ready)
    (hbudget : acceptedCount < c.networkOptions.maxAcceptsPerEvent) (hcaught : s.caught = false)
    (hstate : s.state = .running) :
    if errno = .eagain ∨ errno = .ewouldblock then
      GoesOn s (s.acceptClients c input (.error errno :: rest))
    else
      (s.acceptClients c input (.error errno :: rest)).caught = true := by
  rw [acceptClients_cons c input _ rest hpoint, acceptNewClients,
    if_neg (Nat.not_le.mpr hbudget)]
  simp only [AcceptOutcome.result, if_neg hother]
  split_ifs
  · rw [acceptClients_of_left]
    · exact ⟨hcaught, hstate, (GoesOn.refl hcaught hstate).subReactors⟩
    · nofun
  · rw [acceptClients_of_left]
    · rfl
    · nofun

theorem failsUnexpectedly_zero (outcomes : List AcceptOutcome) :
    failsUnexpectedly 0 outcomes = false := by
  cases outcomes with
  | nil => rfl
  | cons outcome rest => rfl

theorem failsUnexpectedly_error {errno : Errno} (hother : errno ≠ .eintr) (budget : Nat)
    (rest : List AcceptOutcome) :
    failsUnexpectedly (budget + 1) (.error errno :: rest) = true ↔
      ¬ (errno = .eagain ∨ errno = .ewouldblock) := by
  simp [failsUnexpectedly, hother]

/-- While the errors are expected ones, the server goes on; otherwise the exception reaches the
`catch` clause of `Run`. -/
theorem acceptClients_outcome (c : ServerSetup) (input : RunInput)
    (outcomes : List AcceptOutcome) (s : TcpServer Q) (acceptedCount : Nat)
    (ready : List ReadyEvent) (hpoint : s.point = .acceptNewClients acceptedCount ready)
    (hcaught : s.caught = false) (hstate : s.state = .running) :
    if failsUnexpectedly (c.networkOptions.maxAcceptsPerEvent - acceptedCount) outcomes then
      (s.acceptClients c input outcomes).caught = true
    else
      GoesOn s (s.acceptClients c input outcomes) := by
  induction outcomes generalizing s acceptedCount with
  | nil => exact GoesOn.refl hcaught hstate
  | cons outcome rest ih =>
      by_cases hbudget : acceptedCount < c.networkOptions.maxAcceptsPerEvent
      · obtain ⟨budget, hleft⟩ := Nat.exists_eq_add_of_lt (Nat.sub_pos_of_lt hbudget)
        have hsub : c.networkOptions.maxAcceptsPerEvent - acceptedCount = budget + 1 := by
          rw [hleft, Nat.zero_add]
        have hnext : c.networkOptions.maxAcceptsPerEvent - (acceptedCount + 1) = budget := by
          rw [Nat.sub_add_eq, hsub, Nat.add_sub_cancel]
        rw [hsub]
        cases outcome with
        | client fd initialised =>
            rw [acceptClients_cons c input _ rest hpoint]
            obtain ⟨hfirst, hpoint'⟩ := goesOn_client c
              { input with accept := (AcceptOutcome.client fd initialised).result }
              rfl hbudget ready hcaught hstate
            have hrest := ih _ _ hpoint' hfirst.caught hfirst.running
            rw [hnext] at hrest
            rw [failsUnexpectedly]
            split_ifs at hrest ⊢
            · exact hrest
            · exact hfirst.trans hrest
        | error errno =>
            by_cases hinterrupted : errno = .eintr
            · subst hinterrupted
              have hagain := ih s acceptedCount hpoint hcaught hstate
              rw [hsub] at hagain
              rw [acceptClients_eintr c input rest hpoint hbudget]
              exact hagain
            · have herror :=
                acceptClients_error c input hinterrupted rest hpoint hbudget hcaught hstate
              simp only [failsUnexpectedly_error hinterrupted, ite_not]
              exact herror
      · have hspent := Nat.not_lt.mp hbudget
        rw [Nat.sub_eq_zero_of_le hspent, failsUnexpectedly_zero, if_neg Bool.false_ne_true]
        exact goesOn_of_spent c input (outcome :: rest) hpoint hspent hcaught hstate

/-- `AcceptNewClients` leaves the server going, with all the connections it owns, if and only if
no `accept` that it makes fails with an error that is not expected. -/
theorem acceptClients_goesOn_iff (c : ServerSetup) (input : RunInput)
    (outcomes : List AcceptOutcome) (s : TcpServer Q) (acceptedCount : Nat)
    (ready : List ReadyEvent) (hpoint : s.point = .acceptNewClients acceptedCount ready)
    (hcaught : s.caught = false) (hstate : s.state = .running) :
    GoesOn s (s.acceptClients c input outcomes) ↔
      failsUnexpectedly (c.networkOptions.maxAcceptsPerEvent - acceptedCount) outcomes =
        false := by
  have houtcome := acceptClients_outcome c input outcomes s acceptedCount ready hpoint hcaught
    hstate
  constructor
  · intro hgoesOn
    rw [← Bool.not_eq_true]
    intro hfails
    rw [if_pos hfails, hgoesOn.caught] at houtcome
    cases houtcome
  · intro hexpected
    rwa [hexpected, if_neg Bool.false_ne_true] at houtcome

/-- No system call fails. -/
def calmInput : RunInput := idly [] .wouldBlock 0

/-- The server with one client accepts two more, one of which is not initialised; an interrupted
call and an empty queue do not matter. -/
theorem acceptClients_goesOn_iff_expected :
    let s := (created oneSubReactor Store.empty).run oneSubReactor acceptClient
    GoesOn s (s.acceptClients oneSubReactor calmInput
      [.client 8 true, .error .eintr, .client 9 false, .error .eagain]) := by
  intro s
  exact (acceptClients_goesOn_iff oneSubReactor calmInput _ s 1 [] rfl (by decide +kernel)
    (by decide +kernel)).mpr (by decide)

/-- A shortage of descriptors when one more client connects: the exception reaches `Run`, which
force stops the sub reactor, and the connection it owns is closed. -/
theorem not_goesOn_of_emfile :
    let control := SubReactor.readPing [⟨3, { read := true }⟩]
    let s := (created oneSubReactor Store.empty).run oneSubReactor acceptClient
    let after := s.acceptClients oneSubReactor calmInput [.error .emfile]
    let later := after.run oneSubReactor [.run calmInput, .subReactor 0 control]
    ¬ GoesOn s after ∧ s.subReactors.map (·.clients.keys) = [[7]] ∧
      later.subReactors.map (·.clients.keys) = [[]] ∧
      later.subReactors.map (·.state) = [.stopped] := by
  intro control s after later
  refine ⟨fun hgoesOn => ?_, by decide +kernel, by decide +kernel, by decide +kernel⟩
  have hcaught : after.caught = true := by decide +kernel
  exact absurd (hcaught.symm.trans hgoesOn.caught) (by decide)

end TcpServer

end TinyKv
