import TinyKv.Net.PollerInterest

/-!
# Removals from the poller that fail

`CleanupClosedConnections` logs the exception of a failed removal and destroys the connection,
so that its descriptor is closed. `EpollPoller::Remove` throws before it erases the entry of
its interest table, which then blocks the descriptor for the next client that is given the
number.
-/

namespace TinyKv

open Foundation

variable {Q : ExpirationQueue}

namespace SubReactor

/-! ### The entries of the interest table -/

/-- The interest table has an entry for the wakeup channel and for every client. -/
structure Covers (r : SubReactor Q) : Prop where
  control : r.controlFd ∈ r.poller.interests
  apart : r.controlFd ∉ r.clients
  clients : ∀ fd, fd ∈ r.clients → fd ∈ r.poller.interests
  key : ∀ fd conn, r.clients.lookup fd = some conn → conn.fd = fd

/-- An entry without a client. -/
def Stale (r : SubReactor Q) (fd : Int) : Prop :=
  fd ∈ r.poller.interests ∧ fd ≠ r.controlFd ∧ fd ∉ r.clients

/-- The entries are exactly the wakeup channel and the clients. -/
def Exact (r : SubReactor Q) : Prop :=
  ∀ fd, fd ∈ r.poller.interests ↔ fd = r.controlFd ∨ fd ∈ r.clients

theorem Covers.exact_iff {r : SubReactor Q} (h : Covers r) :
    Exact r ↔ ∀ fd, ¬ Stale r fd := by
  constructor
  · rintro hexact fd ⟨hmem, hne, hnot⟩
    exact ((hexact fd).mp hmem).elim hne hnot
  · intro hnone fd
    constructor
    · intro hmem
      by_contra hneither
      obtain ⟨hne, hnot⟩ := not_or.mp hneither
      exact hnone fd ⟨hmem, hne, hnot⟩
    · rintro (rfl | hmem)
      · exact h.control
      · exact h.clients fd hmem

/-- Every descriptor of no client can be registered for a new one. -/
def Reusable (r : SubReactor Q) : Prop :=
  ∀ fd, 0 ≤ fd → fd ≠ r.controlFd → fd ∉ r.clients → fd ∈ (r.addClientInLoop fd true).clients

theorem Exact.reusable {r : SubReactor Q} (h : Exact r) : Reusable r := by
  intro fd hfd hne hnot
  have hfree : r.poller.interests.lookup fd = none := by
    rw [AList.lookup_eq_none, h fd]
    exact not_or.mpr ⟨hne, hnot⟩
  have hadd : r.poller.add fd (Connection.desiredEvents { fd }) true =
      .ok { r.poller with
        interests := r.poller.interests.insert fd (Connection.desiredEvents { fd }) } := by
    have hvalid : Poller.validateInterests fd (Connection.desiredEvents { fd }) = .ok () :=
      if_neg (Int.not_lt.mpr hfd)
    rw [Poller.add, hvalid]
    simp only [bind, Except.bind, hfree, Poller.ctlFails, Bool.not_true, Bool.and_false,
      Bool.false_eq_true, if_false]
    rfl
  unfold addClientInLoop
  rw [AList.lookup_eq_none.mpr hnot]
  simp only [hadd]
  exact (AList.mem_insert r.clients).mpr (.inl rfl)

/-! ### Operations that keep the entries -/

/-- The tables have the same keys as before, and no connection has departed. -/
structure Alike (r after : SubReactor Q) : Prop where
  backend : after.poller.backend = r.poller.backend
  controlFd : after.controlFd = r.controlFd
  departed : after.departed = r.departed
  failed : after.failed = r.failed
  interests : ∀ fd, fd ∈ after.poller.interests ↔ fd ∈ r.poller.interests
  clients : ∀ fd, fd ∈ after.clients ↔ fd ∈ r.clients
  key : ∀ fd conn, after.clients.lookup fd = some conn → conn.fd = fd

theorem Alike.refl {r : SubReactor Q} (h : Covers r) : Alike r r :=
  ⟨rfl, rfl, rfl, rfl, fun _ => Iff.rfl, fun _ => Iff.rfl, h.key⟩

theorem Alike.trans {r mid after : SubReactor Q} (hfirst : Alike r mid) (h : Alike mid after) :
    Alike r after where
  backend := h.backend.trans hfirst.backend
  controlFd := h.controlFd.trans hfirst.controlFd
  departed := h.departed.trans hfirst.departed
  failed := h.failed.trans hfirst.failed
  interests fd := (h.interests fd).trans (hfirst.interests fd)
  clients fd := (h.clients fd).trans (hfirst.clients fd)
  key := h.key

theorem Alike.covers {r after : SubReactor Q} (h : Alike r after) (hr : Covers r) :
    Covers after where
  control := by
    rw [h.controlFd, h.interests]
    exact hr.control
  apart := by
    rw [h.controlFd, h.clients]
    exact hr.apart
  clients fd hmem := (h.interests fd).mpr (hr.clients fd ((h.clients fd).mp hmem))
  key := h.key

/-- Registering the interests of a client, whether or not it succeeds. -/
theorem alike_registerInterest {r : SubReactor Q} (h : Covers r) {fd : Int} (hfd : fd ∈ r.clients)
    {refreshed : Connection × Option IoEvent} (hkey : refreshed.1.fd = fd) (modityOk : Bool) :
    Alike r (r.registerInterest fd refreshed modityOk).2 := by
  have hclients (conn : Connection) (fd' : Int) :
      fd' ∈ r.clients.insert fd conn ↔ fd' ∈ r.clients := by
    rw [AList.mem_insert, or_iff_right_of_imp]
    rintro rfl
    exact hfd
  have hinserted (modified : Bool) : ∀ fd' conn',
      (r.clients.insert fd (Connection.register refreshed modified).2).lookup fd' = some conn' →
        conn'.fd = fd' := by
    refine KeyedMap.forall_lookup_insert ?_ fun fd' conn' _ => h.key fd' conn'
    obtain ⟨events, heq⟩ := Connection.register_conn refreshed modified
    rw [heq]
    exact hkey
  unfold registerInterest
  cases refreshed.2 with
  | none => exact ⟨rfl, rfl, rfl, rfl, fun _ => Iff.rfl, hclients _, hinserted true⟩
  | some desired =>
      simp only
      cases hmodity : r.poller.modity refreshed.1.fd desired modityOk with
      | error e => exact ⟨rfl, rfl, rfl, rfl, fun _ => Iff.rfl, hclients _, hinserted false⟩
      | ok poller =>
          rw [hkey] at hmodity
          obtain rfl := Poller.modity_eq hmodity
          refine ⟨rfl, rfl, rfl, rfl, fun fd' => ?_, hclients _, hinserted true⟩
          rw [AList.mem_insert, or_iff_right_of_imp]
          rintro rfl
          exact h.clients fd' hfd

theorem mem_clients_of_lookup {r : SubReactor Q} {fd : Int} {conn : Connection}
    (h : r.clients.lookup fd = some conn) : fd ∈ r.clients :=
  KeyedMap.mem_iff_exists_lookup.mpr ⟨conn, h⟩

/-- The loop over the ready events; by induction on them. -/
theorem alike_handleReady (o : NetworkOptions) (io : Nat → IoInput Q) (modityOk : Nat → Bool)
    (ready : List ReadyEvent) {r : SubReactor Q} (h : Covers r) :
    Alike r (handleReady o io modityOk ready r).2 := by
  induction ready generalizing io modityOk r with
  | nil => exact .refl h
  | cons event rest ih =>
      unfold handleReady
      split
      · exact ih _ _ h
      cases hlook : r.clients.lookup event.fd with
      | none => exact ih _ _ h
      | some conn =>
          have hrefreshed :=
            Connection.refreshed_handleEvent o r.state event.events (io 0) r.store conn
          have hkey := hrefreshed.registration.fd.trans (h.key event.fd conn hlook)
          have hone := alike_registerInterest
            (r := { r with
              store := (conn.handleEvent o r.state event.events (io 0) r.store).2 })
            ⟨h.control, h.apart, h.clients, h.key⟩ (mem_clients_of_lookup hlook) hkey (modityOk 0)
          simp only
          generalize registerInterest _ event.fd _ (modityOk 0) = result at hone ⊢
          obtain ⟨ok, after⟩ := result
          have hstep : Alike r after :=
            ⟨hone.backend, hone.controlFd, hone.departed, hone.failed, hone.interests,
              hone.clients, hone.key⟩
          cases ok with
          | false => exact hstep
          | true => exact hstep.trans (ih _ _ (hstep.covers h))

/-- The loop of `BeginGracefulShutdown`; by induction on the descriptors. -/
theorem alike_drainClients (o : NetworkOptions) (modityOk : Int → Bool) (fds : List Int)
    {r : SubReactor Q} (h : Covers r) : Alike r (drainClients o modityOk fds r).2 := by
  induction fds generalizing r with
  | nil => exact .refl h
  | cons fd rest ih =>
      unfold drainClients
      cases hlook : r.clients.lookup fd with
      | none => exact ih h
      | some conn =>
          have hkey := (Connection.refreshed_beginDrain o conn).registration.fd.trans
            (h.key fd conn hlook)
          have hone := alike_registerInterest h (mem_clients_of_lookup hlook) hkey (modityOk fd)
          simp only
          generalize r.registerInterest fd (conn.beginDrain o) (modityOk fd) = result at hone ⊢
          obtain ⟨ok, after⟩ := result
          cases ok with
          | false => exact hone
          | true => exact hone.trans (ih (hone.covers h))

/-! ### Operations that leave entries behind -/

/-- The stale entries that are new are those of departed connections whose removal has
failed. -/
structure Follows (removeOk : Int → Bool) (r after : SubReactor Q) : Prop where
  covers : Covers after
  backend : after.poller.backend = r.poller.backend
  controlFd : after.controlFd = r.controlFd
  failed : after.failed = r.failed
  stale : ∃ more, after.departed = r.departed ++ more ∧ ∀ fd, Stale after fd ↔
    Stale r fd ∨ r.poller.backend = .epoll ∧ removeOk fd = false ∧ fd ∈ more.map Connection.fd

variable {removeOk : Int → Bool}

theorem Alike.follows {r after : SubReactor Q} (h : Alike r after) (hr : Covers r) :
    Follows removeOk r after where
  covers := h.covers hr
  backend := h.backend
  controlFd := h.controlFd
  failed := h.failed
  stale := by
    refine ⟨[], by rw [h.departed, List.append_nil], fun fd => ?_⟩
    simp [Stale, h.interests, h.clients, h.controlFd]

theorem Follows.refl {r : SubReactor Q} (h : Covers r) : Follows removeOk r r :=
  (Alike.refl h).follows h

theorem Follows.trans {r mid after : SubReactor Q} (hfirst : Follows removeOk r mid)
    (h : Follows removeOk mid after) : Follows removeOk r after where
  covers := h.covers
  backend := h.backend.trans hfirst.backend
  controlFd := h.controlFd.trans hfirst.controlFd
  failed := h.failed.trans hfirst.failed
  stale := by
    obtain ⟨first, hdeparted, hstale⟩ := hfirst.stale
    obtain ⟨more, hdeparted', hstale'⟩ := h.stale
    refine ⟨first ++ more, by rw [hdeparted', hdeparted, List.append_assoc], fun fd => ?_⟩
    rw [hstale', hstale, hfirst.backend, List.map_append, List.mem_append]
    tauto

/-- One removal: the entry stays when `epoll_ctl` fails. -/
theorem mem_removeClosed (p : Poller) (fd fd' : Int) :
    fd' ∈ (removeClosed removeOk p fd).interests ↔
      fd' ∈ p.interests ∧ (fd' = fd → p.ctlFails (removeOk fd) = true) := by
  unfold removeClosed Poller.remove
  cases hlook : p.interests.lookup fd with
  | none =>
      refine ⟨fun hmem => ⟨hmem, ?_⟩, And.left⟩
      rintro rfl
      exact absurd hmem (AList.lookup_eq_none.mp hlook)
  | some held =>
      simp only
      by_cases hfails : p.ctlFails (removeOk fd) = true
      · rw [if_pos hfails]
        exact ⟨fun hmem => ⟨hmem, fun _ => hfails⟩, And.left⟩
      · rw [if_neg hfails]
        change fd' ∈ p.interests.erase fd ↔ _
        rw [AList.mem_erase]
        exact ⟨fun h => ⟨h.2, fun heq => absurd heq h.1⟩,
          fun h => ⟨fun heq => hfails (h.2 heq), h.1⟩⟩

theorem backend_removeClosed (p : Poller) (fd : Int) :
    (removeClosed removeOk p fd).backend = p.backend := by
  unfold removeClosed Poller.remove
  cases p.interests.lookup fd with
  | none => rfl
  | some held =>
      simp only
      by_cases hfails : p.ctlFails (removeOk fd) = true
      · rw [if_pos hfails]
        rfl
      · rw [if_neg hfails]
        rfl

theorem mem_removeClosed_all (fds : List Int) (p : Poller) (fd : Int) :
    fd ∈ (fds.foldl (removeClosed removeOk) p).interests ↔
      fd ∈ p.interests ∧ (fd ∈ fds → p.ctlFails (removeOk fd) = true) := by
  induction fds generalizing p with
  | nil => simp
  | cons fd' rest ih =>
      have hfails : (removeClosed removeOk p fd').ctlFails (removeOk fd) =
          p.ctlFails (removeOk fd) := by
        unfold Poller.ctlFails
        rw [backend_removeClosed]
      rw [List.foldl_cons, ih, mem_removeClosed, hfails, List.mem_cons]
      constructor
      · rintro ⟨⟨hmem, hfirst⟩, hrest⟩
        refine ⟨hmem, ?_⟩
        rintro (rfl | hlater)
        · exact hfirst rfl
        · exact hrest hlater
      · rintro ⟨hmem, hall⟩
        refine ⟨⟨hmem, ?_⟩, fun hlater => hall (.inr hlater)⟩
        rintro rfl
        exact hall (.inl rfl)

theorem backend_removeClosed_all (fds : List Int) (p : Poller) :
    (fds.foldl (removeClosed removeOk) p).backend = p.backend := by
  induction fds generalizing p with
  | nil => rfl
  | cons fd rest ih => rw [List.foldl_cons, ih, backend_removeClosed]

theorem ctlFails_iff {p : Poller} {ctlOk : Bool} :
    p.ctlFails ctlOk = true ↔ p.backend = .epoll ∧ ctlOk = false := by
  simp [Poller.ctlFails]

/-- The clients that the cleanup erases. -/
def closedFds (r : SubReactor Q) : List Int :=
  (r.clients.entries.filter fun e => e.2.closed).map Sigma.fst

theorem mem_closedFds {r : SubReactor Q} {fd : Int} :
    fd ∈ r.closedFds ↔ ∃ conn, r.clients.lookup fd = some conn ∧ conn.closed = true := by
  constructor
  · intro hmem
    obtain ⟨⟨fd, conn⟩, hentry, rfl⟩ := List.mem_map.mp hmem
    obtain ⟨hentry, hclosed⟩ := List.mem_filter.mp hentry
    exact ⟨conn, KeyedMap.mem_entries_iff_lookup.mp hentry, hclosed⟩
  · rintro ⟨conn, hlook, hclosed⟩
    exact List.mem_map.mpr ⟨⟨fd, conn⟩,
      List.mem_filter.mpr ⟨KeyedMap.mem_entries_iff_lookup.mpr hlook, hclosed⟩, rfl⟩

theorem mem_clients_cleanup {r : SubReactor Q} {fd : Int} :
    fd ∈ (r.cleanupClosedConnections removeOk).clients ↔ fd ∈ r.clients ∧ fd ∉ r.closedFds := by
  rw [mem_closedFds]
  constructor
  · intro hmem
    obtain ⟨conn, hlook⟩ := KeyedMap.mem_iff_exists_lookup.mp hmem
    obtain ⟨hlook, hopen⟩ := KeyedMap.lookup_filterValues.mp hlook
    refine ⟨mem_clients_of_lookup hlook, ?_⟩
    rintro ⟨conn', hlook', hclosed⟩
    rw [hlook] at hlook'
    cases hlook'
    simp [hclosed] at hopen
  · rintro ⟨hmem, hopen⟩
    obtain ⟨conn, hlook⟩ := KeyedMap.mem_iff_exists_lookup.mp hmem
    apply mem_clients_of_lookup
    apply KeyedMap.lookup_filterValues.mpr
    refine ⟨hlook, ?_⟩
    cases hclosed : conn.closed with
    | false => rfl
    | true => exact absurd ⟨conn, hlook, hclosed⟩ hopen

/-- The connections that the cleanup destroys have the descriptors that it removes. -/
theorem map_fd_departed {r : SubReactor Q} (h : Covers r) :
    ((r.clients.entries.filter fun e => e.2.closed).map Sigma.snd).map Connection.fd =
      r.closedFds := by
  rw [closedFds, List.map_map]
  apply List.map_congr_left
  rintro ⟨fd, conn⟩ hentry
  exact h.key fd conn (KeyedMap.mem_entries_iff_lookup.mp (List.mem_filter.mp hentry).1)

theorem follows_cleanup {r : SubReactor Q} (h : Covers r) :
    Follows removeOk r (r.cleanupClosedConnections removeOk) := by
  have hinterests (fd : Int) : fd ∈ (r.cleanupClosedConnections removeOk).poller.interests ↔
      fd ∈ r.poller.interests ∧ (fd ∈ r.closedFds → r.poller.ctlFails (removeOk fd) = true) :=
    mem_removeClosed_all r.closedFds r.poller fd
  have hmember {fd : Int} (hclosed : fd ∈ r.closedFds) : fd ∈ r.clients := by
    obtain ⟨conn, hlook, -⟩ := mem_closedFds.mp hclosed
    exact mem_clients_of_lookup hlook
  have hcovers : Covers (r.cleanupClosedConnections removeOk) := by
    refine ⟨(hinterests _).mpr ⟨h.control, fun hclosed => absurd (hmember hclosed) h.apart⟩,
      fun hmem => h.apart (mem_clients_cleanup.mp hmem).1, fun fd hmem => ?_,
      fun fd conn hlook => h.key fd conn (KeyedMap.lookup_filterValues.mp hlook).1⟩
    obtain ⟨hmem, hopen⟩ := mem_clients_cleanup.mp hmem
    exact (hinterests fd).mpr ⟨h.clients fd hmem, fun hclosed => absurd hclosed hopen⟩
  refine ⟨hcovers, backend_removeClosed_all _ _, rfl, rfl, _, rfl, fun fd => ?_⟩
  rw [map_fd_departed h, Stale, hinterests, mem_clients_cleanup, ctlFails_iff]
  change _ ∧ fd ≠ r.controlFd ∧ _ ↔ _
  by_cases hclosed : fd ∈ r.closedFds
  · have hclient := hmember hclosed
    have hentry := h.clients fd hclient
    have hne : fd ≠ r.controlFd := fun heq => h.apart (heq ▸ hclient)
    simp [Stale, hclosed, hclient, hentry, hne]
  · simp [Stale, hclosed]

theorem follows_forceClose {r : SubReactor Q} (h : Covers r) (reason : ForcedClose) :
    Follows removeOk r (r.forceCloseAllConnections reason removeOk) := by
  have hmarked : Alike r { r with
      calls := r.calls ++ [MetricCall.addForcedShutdownConnections (KeyedMap.size r.clients)]
      clients := KeyedMap.mapValues (·.markClosed reason.cause) r.clients } := by
    refine ⟨rfl, rfl, rfl, rfl, fun _ => Iff.rfl, fun fd => ?_, fun fd conn hlook => ?_⟩
    · change fd ∈ (KeyedMap.mapValues _ r.clients).keys ↔ fd ∈ r.clients.keys
      rw [KeyedMap.keys_mapValues]
    · obtain ⟨before, hbefore, rfl⟩ := KeyedMap.lookup_mapValues.mp hlook
      exact h.key fd before hbefore
  exact (hmarked.follows h).trans (follows_cleanup (hmarked.covers h))

theorem not_mem_of_add {p p' : Poller} {fd : Int} {interests : IoEvent} {ctlOk : Bool}
    (h : p.add fd interests ctlOk = .ok p') : fd ∉ p.interests := by
  intro hmem
  obtain ⟨held, hheld⟩ := KeyedMap.mem_iff_exists_lookup.mp hmem
  unfold Poller.add at h
  cases hvalid : Poller.validateInterests fd interests with
  | error e =>
      rw [hvalid] at h
      cases h
  | ok u =>
      rw [hvalid] at h
      simp only [hheld] at h
      cases h

theorem follows_addClientInLoop {r : SubReactor Q} (h : Covers r) (fd : Int) (addOk : Bool) :
    Follows removeOk r (r.addClientInLoop fd addOk) := by
  have houtcome := r.addClientInLoop_outcome fd addOk
  generalize r.addClientInLoop fd addOk = after at houtcome ⊢
  cases houtcome with
  | refused => exact .refl h
  | registered hnew hadd =>
      have hfree := not_mem_of_add hadd
      have hne : r.controlFd ≠ fd := fun heq => hfree (heq ▸ h.control)
      obtain rfl := Poller.add_eq hadd
      refine ⟨⟨?_, ?_, fun fd' hmem => ?_, ?_⟩, rfl, rfl, rfl, [], by simp, fun fd' => ?_⟩
      · exact (AList.mem_insert _).mpr (.inr h.control)
      · intro hmem
        exact ((AList.mem_insert _).mp hmem).elim hne h.apart
      · exact (AList.mem_insert _).mpr (((AList.mem_insert _).mp hmem).imp id (h.clients fd'))
      · exact KeyedMap.forall_lookup_insert rfl fun fd' conn _ => h.key fd' conn
      · change fd' ∈ r.poller.interests.insert fd _ ∧ fd' ≠ r.controlFd ∧
          fd' ∉ r.clients.insert fd _ ↔ _
        rw [AList.mem_insert, AList.mem_insert]
        by_cases heq : fd' = fd
        · subst heq
          simp [Stale, hfree]
        · simp [Stale, heq]

theorem follows_addClients (fds : List Int) (addOk : Nat → Bool) {r : SubReactor Q}
    (h : Covers r) : Follows removeOk r (addClients addOk fds r) := by
  induction fds generalizing addOk r with
  | nil => exact .refl h
  | cons fd rest ih =>
      have hone : Follows removeOk r (r.addClientInLoop fd (addOk 0)) :=
        follows_addClientInLoop h fd (addOk 0)
      exact hone.trans (ih _ hone.covers)

/-! ### Iterations -/

theorem alike_drainAll {r : SubReactor Q} (h : Covers r) (o : NetworkOptions)
    (input : LoopInput Q) (deadline : TimePoint) : Alike r (drainAll o input deadline r).2 := by
  have hdraining : Covers (r.drainUntil deadline) := ⟨h.control, h.apart, h.clients, h.key⟩
  have hloop := alike_drainClients o input.drainModityOk r.clients.keys hdraining
  exact ⟨hloop.backend, hloop.controlFd, hloop.departed, hloop.failed, hloop.interests,
    hloop.clients, hloop.key⟩

/-- The state is published last, and the tables are as before. -/
theorem Follows.publish {r after : SubReactor Q} (h : Follows removeOk r after)
    (state : ServerState) : Follows removeOk r (after.publishState state) :=
  ⟨⟨h.covers.control, h.covers.apart, h.covers.clients, h.covers.key⟩, h.backend, h.controlFd,
    h.failed, h.stale⟩

/-- An operation keeps the entries of the clients; unless it throws, what it leaves behind is
known. -/
def Accounted (removeOk : Int → Bool) (r : SubReactor Q) (result : Bool × SubReactor Q) : Prop :=
  Covers result.2 ∧ (result.1 = true → Follows removeOk r result.2)

theorem Follows.accounted {r after : SubReactor Q} (h : Follows removeOk r after) :
    Accounted removeOk r (true, after) := ⟨h.covers, fun _ => h⟩

theorem Follows.before {r mid : SubReactor Q} {result : Bool × SubReactor Q}
    (h : Follows removeOk r mid) (hresult : Accounted removeOk mid result) :
    Accounted removeOk r result :=
  ⟨hresult.1, fun hok => h.trans (hresult.2 hok)⟩

theorem accounted_of_covers {r after : SubReactor Q} (h : Covers after) :
    Accounted removeOk r (false, after) := ⟨h, nofun⟩

theorem accounted_beginGracefulShutdown {r : SubReactor Q} (h : Covers r) (o : NetworkOptions)
    (input : LoopInput Q) (deadline : TimePoint) :
    Accounted input.removeOk r (beginGracefulShutdown o input deadline r) := by
  have hdrain := alike_drainAll h o input deadline
  have houtcome := beginGracefulShutdown_outcome o input deadline r
  generalize SubReactor.beginGracefulShutdown o input deadline r = result at houtcome ⊢
  cases houtcome with
  | repeated hstate => exact (Follows.refl h).accounted
  | failed hstate hdrained =>
      rw [hdrained] at hdrain
      exact accounted_of_covers (hdrain.covers h)
  | finished hstate hdrained hempty =>
      rw [hdrained] at hdrain
      exact (((hdrain.follows h).trans (follows_cleanup (hdrain.covers h))).publish
        .stopped).accounted
  | begun hstate hdrained hclients =>
      rw [hdrained] at hdrain
      exact ((hdrain.follows h).trans (follows_cleanup (hdrain.covers h))).accounted

theorem accounted_processControlRequests {r : SubReactor Q} (h : Covers r) (o : NetworkOptions)
    (input : LoopInput Q) : Accounted input.removeOk r (processControlRequests o input r) := by
  have htaken : Alike r { r with pendingClients := [] } :=
    ⟨rfl, rfl, rfl, rfl, fun _ => Iff.rfl, fun _ => Iff.rfl, h.key⟩
  have hcovers := htaken.covers h
  unfold SubReactor.processControlRequests
  simp only
  apply (htaken.follows h).before
  split
  · exact ((follows_forceClose hcovers .forceStop).publish .stopped).accounted
  split
  · exact accounted_beginGracefulShutdown hcovers o input _
  · exact (follows_addClients r.pendingClients input.addOk hcovers).accounted

theorem follows_checkShutdownProgress {r : SubReactor Q} (h : Covers r) (input : LoopInput Q) :
    Follows input.removeOk r (r.checkShutdownProgress input) := by
  have hread : Alike r { r with readings := r.readings ++ [input.now] } :=
    ⟨rfl, rfl, rfl, rfl, fun _ => Iff.rfl, fun _ => Iff.rfl, h.key⟩
  have houtcome := r.checkShutdownProgress_outcome input
  generalize r.checkShutdownProgress input = after at houtcome ⊢
  cases houtcome with
  | serving hstate => exact .refl h
  | drained hstate hempty => exact (Follows.refl h).publish .stopped
  | late hstate hclients hlate =>
      have hfirst : Follows input.removeOk r { r with readings := r.readings ++ [input.now] } :=
        hread.follows h
      exact (hfirst.trans (follows_forceClose hfirst.covers .deadline)).publish .stopped
  | waiting hstate hclients hearly => exact hread.follows h

theorem follows_afterControl {r mid : SubReactor Q} (h : Covers r) {o : NetworkOptions}
    {input : LoopInput Q} {ready : List ReadyEvent} (hmid : AfterControl o input ready r mid) :
    Follows input.removeOk r mid := by
  obtain ⟨-, rfl⟩ | ⟨-, -, hprocess⟩ := hmid
  · exact .refl h
  · have haccounted := accounted_processControlRequests h o input
    rw [hprocess] at haccounted
    exact haccounted.2 rfl

/-- An iteration that ends without an exception leaves the entries of the connections behind
whose removal has failed. -/
theorem accounted_iteration {r : SubReactor Q} (h : Covers r) (o : NetworkOptions)
    (input : LoopInput Q) : Accounted input.removeOk r (r.iteration o input) := by
  have houtcome := iteration_outcome o input r
  generalize r.iteration o input = result at houtcome ⊢
  cases houtcome with
  | waitFailed hready => exact accounted_of_covers h
  | drainFailed hready hcontrol hdrain => exact accounted_of_covers h
  | controlFailed hready hcontrol hdrain hprocess =>
      have haccounted := accounted_processControlRequests h o input
      rw [hprocess] at haccounted
      exact accounted_of_covers haccounted.1
  | stopped hready hmid hstate => exact (follows_afterControl h hmid).accounted
  | @eventFailed ready mid handled hready hmid hstate hhandled =>
      have hcovers := (follows_afterControl h hmid).covers
      have halike := alike_handleReady o input.io input.modityOk ready hcovers
      rw [hhandled] at halike
      exact accounted_of_covers (halike.covers hcovers)
  | @handled ready mid handled hready hmid hstate hhandled =>
      have hcontrol := follows_afterControl h hmid
      have halike := alike_handleReady o input.io input.modityOk ready hcontrol.covers
      rw [hhandled] at halike
      have hevents : Follows input.removeOk mid handled := halike.follows hcontrol.covers
      have hcleanup : Follows input.removeOk handled
          (handled.cleanupClosedConnections input.removeOk) := follows_cleanup hevents.covers
      have hcheck := follows_checkShutdownProgress hcleanup.covers input
      exact (hcontrol.trans (hevents.trans (hcleanup.trans hcheck))).accounted

/-! ### Runs -/

/-- No removal fails in an iteration: `epoll_ctl` succeeds for every connection that departs
in it, unless the iteration ends in an exception. -/
def RemovalsSucceed (o : NetworkOptions) (r : SubReactor Q) : Action Q → Prop
  | .iterate input => r.poller.backend = .poll ∨ (r.iterate o input).failed = true ∨
      ∀ conn ∈ (r.iterate o input).departed.drop r.departed.length, input.removeOk conn.fd = true
  | _ => True

/-- The poller of a reactor that has been started and has not failed has entries for the wakeup
channel and the clients only, and every other descriptor can be registered. -/
def LeavesNothing (r : SubReactor Q) : Prop :=
  r.state ≠ .created → r.failed = false → Exact r ∧ Reusable r

/-- What holds between iterations, whether or not removals fail. -/
structure Kept (r : SubReactor Q) : Prop where
  tidy : r.Tidy
  idle : r.Idle
  covers : r.state ≠ .created → Covers r

theorem Covers.fail {r : SubReactor Q} (h : Covers r) : Covers r.fail :=
  ⟨h.control, AList.notMem_empty _, fun fd hmem => absurd hmem (AList.notMem_empty fd),
    fun fd conn hlook => by cases hlook⟩

/-- A reactor starts with the entry of the wakeup channel. -/
theorem exact_start {r : SubReactor Q} (hclients : r.clients = ∅) (hstate : r.state = .created)
    (addOk threadOk : Bool) (hstarted : (r.start addOk threadOk).state ≠ .created) :
    Covers (r.start addOk threadOk) ∧ Exact (r.start addOk threadOk) := by
  unfold start at hstarted ⊢
  split at hstarted
  · exact absurd hstate hstarted
  next hpublished =>
    rw [if_neg hpublished]
    simp only at hstarted ⊢
    cases hadd : Poller.add { r.poller with interests := ∅ } r.controlFd { read := true } addOk with
    | error e =>
        rw [hadd] at hstarted
        exact absurd hstate hstarted
    | ok poller =>
        rw [hadd] at hstarted
        obtain rfl := Poller.add_eq hadd
        cases threadOk with
        | false => exact absurd rfl hstarted
        | true =>
            have hnone (fd : Int) : fd ∉ r.clients := hclients ▸ AList.notMem_empty fd
            have hentry (fd : Int) :
                fd ∈ (∅ : KeyedMap Int IoEvent).insert r.controlFd { read := true } ↔
                  fd = r.controlFd := by
              rw [AList.mem_insert, or_iff_left (AList.notMem_empty fd)]
            refine ⟨⟨(hentry _).mpr rfl, hnone _, fun fd hmem => absurd hmem (hnone fd),
              fun fd conn hlook => absurd (mem_clients_of_lookup hlook) (hnone fd)⟩, fun fd => ?_⟩
            exact (hentry fd).trans (or_iff_left (hnone fd)).symm

theorem Kept.step {r : SubReactor Q} (h : Kept r) (o : NetworkOptions) (action : Action Q) :
    Kept (r.step o action) := by
  refine ⟨h.tidy.step o action, h.idle.step h.tidy o action, fun hstate => ?_⟩
  cases action with
  | start addOk threadOk =>
      by_cases hpublished : r.publishedState = .created
      · have hcreated : r.state = .created := h.tidy.published ▸ hpublished
        exact (exact_start (h.idle hcreated) hcreated addOk threadOk hstate).1
      · change (r.start addOk threadOk).state ≠ .created at hstate
        change Covers (r.start addOk threadOk)
        rw [start_of_started hpublished] at hstate ⊢
        exact h.covers hstate
  | enqueClient fd =>
      obtain ⟨fds, heq⟩ := r.enqueClient_eq fd
      rw [SubReactor.step, heq] at hstate ⊢
      have hcovers := h.covers hstate
      exact ⟨hcovers.control, hcovers.apart, hcovers.clients, hcovers.key⟩
  | stop deadline =>
      have hcovers := h.covers hstate
      exact ⟨hcovers.control, hcovers.apart, hcovers.clients, hcovers.key⟩
  | forceStop =>
      have hcovers := h.covers hstate
      exact ⟨hcovers.control, hcovers.apart, hcovers.clients, hcovers.key⟩
  | iterate input =>
      change Covers (r.iterate o input)
      change (r.iterate o input).state ≠ .created at hstate
      by_cases hlive : r.state = .created ∨ r.state = .stopped
      · rw [iterate_of_idle hlive] at hstate ⊢
        exact h.covers hstate
      · have hcovers := (accounted_iteration (h.covers fun hcreated => hlive (.inl hcreated)) o
          input).1
        rw [iterate, if_neg hlive]
        generalize r.iteration o input = result at hcovers ⊢
        obtain ⟨ok, after⟩ := result
        cases ok with
        | false => exact hcovers.fail
        | true => exact hcovers

/-- What an iteration leaves behind that has not ended in an exception. -/
theorem follows_iterate {r : SubReactor Q} (h : Kept r)
    (hlive : ¬ (r.state = .created ∨ r.state = .stopped)) {o : NetworkOptions}
    {input : LoopInput Q} (hok : (r.iterate o input).failed = false) :
    Follows input.removeOk r (r.iterate o input) := by
  have haccounted :=
    (accounted_iteration (h.covers fun hcreated => hlive (.inl hcreated)) o input).2
  unfold iterate at hok ⊢
  rw [if_neg hlive] at hok ⊢
  generalize r.iteration o input = result at haccounted hok ⊢
  obtain ⟨ok, after⟩ := result
  cases ok with
  | false => cases hok
  | true => exact haccounted rfl

theorem leavesNothing_of_exact {r : SubReactor Q}
    (h : r.state ≠ .created → r.failed = false → Exact r) : LeavesNothing r :=
  fun hstate hnot => ⟨h hstate hnot, (h hstate hnot).reusable⟩

/-- Without a failing removal nothing is left behind. -/
theorem LeavesNothing.step {r : SubReactor Q} (hkept : Kept r) (h : LeavesNothing r)
    {o : NetworkOptions} {action : Action Q} (hremovals : RemovalsSucceed o r action) :
    LeavesNothing (r.step o action) := by
  apply leavesNothing_of_exact
  intro hstate hnot
  cases action with
  | start addOk threadOk =>
      by_cases hpublished : r.publishedState = .created
      · have hcreated : r.state = .created := hkept.tidy.published ▸ hpublished
        exact (exact_start (hkept.idle hcreated) hcreated addOk threadOk hstate).2
      · rw [SubReactor.step, start_of_started hpublished] at hstate hnot ⊢
        exact (h hstate hnot).1
  | enqueClient fd =>
      obtain ⟨fds, heq⟩ := r.enqueClient_eq fd
      rw [SubReactor.step, heq] at hstate hnot ⊢
      exact (h hstate hnot).1
  | stop deadline => exact (h hstate hnot).1
  | forceStop => exact (h hstate hnot).1
  | iterate input =>
      change Exact (r.iterate o input)
      change (r.iterate o input).state ≠ .created at hstate
      change (r.iterate o input).failed = false at hnot
      by_cases hlive : r.state = .created ∨ r.state = .stopped
      · rw [iterate_of_idle hlive] at hstate hnot ⊢
        exact (h hstate hnot).1
      have hfollows := follows_iterate hkept hlive hnot
      obtain ⟨more, hdeparted, hstale⟩ := hfollows.stale
      have hexact := (h (fun hcreated => hlive (.inl hcreated)) (hfollows.failed ▸ hnot)).1
      have hnone := (hkept.covers fun hcreated => hlive (.inl hcreated)).exact_iff.mp hexact
      apply hfollows.covers.exact_iff.mpr
      intro fd hleft
      obtain hbefore | ⟨hepoll, hfails, hmem⟩ := (hstale fd).mp hleft
      · exact hnone fd hbefore
      obtain ⟨conn, hconn, rfl⟩ := List.mem_map.mp hmem
      obtain hpoll | hfailed | hall := hremovals
      · rw [hepoll] at hpoll
        cases hpoll
      · rw [hnot] at hfailed
        cases hfailed
      · rw [hdeparted, List.drop_left] at hall
        rw [hall conn hconn] at hfails
        cases hfails

/-- A failing removal leaves its entry behind. -/
theorem not_leavesNothing_step {r : SubReactor Q} (hkept : Kept r) {o : NetworkOptions}
    {action : Action Q} (hremovals : ¬ RemovalsSucceed o r action) :
    ¬ LeavesNothing (r.step o action) := by
  cases action with
  | iterate input =>
      obtain ⟨hbackend, hnot, hall⟩ := by
        simpa only [RemovalsSucceed, not_or] using hremovals
      push Not at hall
      obtain ⟨conn, hconn, hfails⟩ := hall
      have hnot : (r.iterate o input).failed = false := Bool.eq_false_iff.mpr hnot
      have hepoll : r.poller.backend = .epoll := by
        cases hcase : r.poller.backend with
        | poll => exact absurd hcase hbackend
        | epoll => rfl
      have hlive : ¬ (r.state = .created ∨ r.state = .stopped) := by
        intro hidle
        rw [iterate_of_idle hidle, List.drop_length] at hconn
        cases hconn
      have hfollows := follows_iterate hkept hlive hnot
      obtain ⟨more, hdeparted, hstale⟩ := hfollows.stale
      rw [hdeparted, List.drop_left] at hconn
      have hleft := (hstale conn.fd).mpr
        (.inr ⟨hepoll, Bool.eq_false_iff.mpr hfails, List.mem_map_of_mem hconn⟩)
      intro hleaves
      have hstate : (r.iterate o input).state ≠ .created :=
        (advances_iterate r o input).ne_created fun hcreated => hlive (.inl hcreated)
      exact hfollows.covers.exact_iff.mp (hleaves hstate hnot).1 conn.fd hleft
  | start addOk threadOk => exact absurd trivial hremovals
  | enqueClient fd => exact absurd trivial hremovals
  | stop deadline => exact absurd trivial hremovals
  | forceStop => exact absurd trivial hremovals

/-- All along a run the poller has entries for the wakeup channel and the clients only, so that
every other descriptor can be registered, exactly when no removal of a departing connection
fails. -/
theorem leavesNothing_iff (o : NetworkOptions) (backend : PollerBackend) (controlFd : Int)
    (store : Store Q) (actions : List (Action Q)) :
    (machine o).Meets (RemovalsSucceed o) (created backend controlFd store) actions ↔
      ∀ before, before <+: actions →
        LeavesNothing ((created backend controlFd store).run o before) := by
  apply (machine o).meets_iff_all_along (I := Kept)
  · exact fun r action hkept => hkept.step o action
  · exact fun r action hkept h hremovals => h.step hkept hremovals
  · exact fun r action hkept hremovals => not_leavesNothing_step hkept hremovals
  · exact ⟨tidy_created backend controlFd store, fun _ => rfl, fun hstate => absurd rfl hstate⟩
  · exact fun hstate => absurd rfl hstate

/-- The client 7 ends its connection, and `epoll_ctl` fails to remove its descriptor. -/
def failedRemoval : List (Action sortedExpirations) :=
  [.start true true, .enqueClient 7, .iterate (calmly [⟨3, { read := true }⟩] .wouldBlock
      .wouldBlock 0),
    .iterate { calmly [⟨7, { read := true }⟩] (.bytes []) .wouldBlock 0 with
      removeOk := fun _ => false }]

/-- After the failed removal the number 7 is closed and has no client, but the next client
with this number is refused. -/
theorem stale_after_failed_removal :
    let r := (created .epoll 3 (Store.empty : Store sortedExpirations)).run {} failedRemoval
    r.failed = false ∧ r.clients.lookup 7 = none ∧ (r.poller.interests.lookup 7).isSome = true ∧
      (r.addClientInLoop 7 true).clients.lookup 7 = none ∧ ¬ LeavesNothing r := by
  intro r
  have hentry : (r.poller.interests.lookup 7).isSome = true := by decide
  have hclient : r.clients.lookup 7 = none := by decide
  refine ⟨by decide, hclient, hentry, by decide, fun hleaves => ?_⟩
  obtain ⟨hexact, -⟩ := hleaves (by decide) (by decide)
  obtain hcontrol | hmem := (hexact 7).mp (AList.lookup_isSome.mp hentry)
  · revert hcontrol
    decide
  · exact AList.lookup_eq_none.mp hclient hmem

end SubReactor

end TinyKv
