import TinyKv.Net.ReactorInvariants
import TinyKv.Net.Segmentation
import TinyKv.Config.ConfigLoader

/-!
# The registered interests

Every event that is handled ends in `RefreshConnectionInterest`, so that between the
iterations the poller waits for what each connection wants: to send what is pending, and
to read unless it is paused or closing.
-/

namespace TinyKv

open Foundation FrameCodec

variable {Q : ExpirationQueue}

namespace Connection

/-! ### The registered interests are moved by the refresh only -/

/-- The handlers leave the descriptor and the registered interests alone, and open no
connection. -/
structure KeepsRegistration (before after : Connection) : Prop where
  fd : after.fd = before.fd
  registered : after.registeredEvents = before.registeredEvents
  opened : after.closed = false → before.closed = false

theorem KeepsRegistration.refl (conn : Connection) : KeepsRegistration conn conn :=
  ⟨rfl, rfl, id⟩

theorem KeepsRegistration.trans {a b c : Connection} (hab : KeepsRegistration a b)
    (hbc : KeepsRegistration b c) : KeepsRegistration a c :=
  ⟨hbc.fd.trans hab.fd, hbc.registered.trans hab.registered, fun h => hab.opened (hbc.opened h)⟩

theorem KeepsRegistration.markClosed {a b : Connection} (hab : KeepsRegistration a b)
    (cause : CloseCause) : KeepsRegistration a (b.markClosed cause) :=
  ⟨hab.fd, hab.registered, nofun⟩

theorem keepsRegistration_update (o : NetworkOptions) (conn : Connection) :
    KeepsRegistration conn (conn.updateReadBackPressure o) := by
  obtain ⟨paused, calls, heq, -⟩ := updateReadBackPressure_eq o conn
  rw [heq]
  exact ⟨rfl, rfl, id⟩

theorem keepsRegistration_queueResponse (o : NetworkOptions) (conn : Connection)
    (response : Bytes) : KeepsRegistration conn (conn.queueResponse o response).2 := by
  rcases queueResponse_cases o conn response with
    ⟨cause, calls, -, -, heq⟩ | ⟨paused, calls, -, -, -, heq⟩
  · rw [heq]
    exact ⟨rfl, rfl, nofun⟩
  · rw [heq]
    exact ⟨rfl, rfl, id⟩

theorem keepsRegistration_processPayloads (o : NetworkOptions) (payloads : List Bytes)
    (ambient : Nat → Ambient Q) (store : Store Q) (conn : Connection) :
    KeepsRegistration conn (conn.processPayloads o ambient store payloads).1 := by
  induction payloads generalizing ambient store conn with
  | nil => exact .refl conn
  | cons payload rest ih =>
      have hone : KeepsRegistration conn (conn.processPayload o (ambient 0) store payload).2.1 := by
        rcases processPayload_cases o (ambient 0) store conn payload with
          ⟨cause, calls, -, -, heq⟩ | ⟨paused, before, calls, -, -, -, -, heq⟩
        · rw [heq]
          exact ⟨rfl, rfl, nofun⟩
        · rw [heq]
          exact ⟨rfl, rfl, id⟩
      unfold processPayloads
      generalize conn.processPayload o (ambient 0) store payload = result at hone ⊢
      obtain ⟨continues, mid, store'⟩ := result
      cases continues with
      | false => exact hone
      | true => exact hone.trans (ih _ _ _)

theorem keepsRegistration_receiveBytes (o : NetworkOptions) (ambient : Nat → Ambient Q)
    (store : Store Q) (conn : Connection) (bytes : Bytes) :
    KeepsRegistration conn (conn.receiveBytes o ambient store bytes).1 := by
  have hstate (call : MetricCall) : KeepsRegistration conn (conn.withInput bytes call) :=
    ⟨rfl, rfl, id⟩
  cases hrejected : (frameParser.drain (conn.readBuffer ++ bytes)).rejected with
  | true =>
      rw [receiveBytes_rejected hrejected]
      have hqueue := (hstate .onProtocolError).trans
        (keepsRegistration_queueResponse o _ (ascii "-ERR protocol error"))
      simp only [finalResponse]
      split
      · exact ⟨hqueue.fd, hqueue.registered, hqueue.opened⟩
      · exact hqueue
  | false =>
      rw [receiveBytes_accepted hrejected]
      exact (hstate _).trans (keepsRegistration_processPayloads o _ ambient store _)

theorem keepsRegistration_handleClientRead (o : NetworkOptions) (input : IoInput Q)
    (store : Store Q) (conn : Connection) :
    KeepsRegistration conn (conn.handleClientRead o input store).1 := by
  by_cases hreading : conn.Reading
  swap
  · rw [handleClientRead_refused hreading]
    exact .refl conn
  have houtcome := handleClientRead_outcome hreading o input store
  generalize conn.handleClientRead o input store = result at houtcome ⊢
  cases houtcome with
  | oversized hfull =>
      have hqueue := keepsRegistration_queueResponse o conn
        (ascii "-ERR request buffer too large")
      rw [rejectOversizedReadBuffer_eq]
      split
      · exact ⟨hqueue.fd, hqueue.registered, hqueue.opened⟩
      · exact hqueue.markClosed _
  | ended hroom hrecv hnil =>
      rw [receiveEnd_eq]
      exact ⟨rfl, rfl, nofun⟩
  | bytes hroom hrecv hnil => exact keepsRegistration_receiveBytes o input.ambient store conn _
  | wouldBlock hrecv => exact .refl conn
  | failed hrecv => exact ⟨rfl, rfl, nofun⟩

theorem keepsRegistration_sendBytes (o : NetworkOptions) (conn : Connection) (bytes : Nat)
    (h : bytes ≤ conn.writeBuffer.size) : KeepsRegistration conn (conn.sendBytes o bytes h) := by
  have hupdate {mid : Connection} (hmid : KeepsRegistration conn mid) :
      KeepsRegistration conn (mid.updateReadBackPressure o) :=
    hmid.trans (keepsRegistration_update o mid)
  unfold sendBytes
  simp only
  split
  · apply KeepsRegistration.markClosed
    apply hupdate
    exact ⟨rfl, rfl, id⟩
  · apply hupdate
    exact ⟨rfl, rfl, id⟩

theorem keepsRegistration_handleClientWrite (o : NetworkOptions) (input : IoInput Q)
    (conn : Connection) : KeepsRegistration conn (conn.handleClientWrite o input) := by
  have hupdate := keepsRegistration_update o conn
  unfold handleClientWrite
  split
  · exact .refl conn
  split
  · simp only
    split
    · exact hupdate.markClosed _
    · exact hupdate
  simp only
  cases input.send.result with
  | accepted bytes =>
      simp only
      split
      · exact keepsRegistration_sendBytes o conn _ _
      · exact (KeepsRegistration.refl conn).markClosed _
  | wouldBlock => exact .refl conn
  | failed => exact (KeepsRegistration.refl conn).markClosed _

theorem keepsRegistration_hangUp (conn : Connection) : KeepsRegistration conn conn.hangUp := by
  unfold hangUp
  simp only
  split
  · exact ⟨rfl, rfl, nofun⟩
  · exact ⟨rfl, rfl, id⟩

/-! ### What the refresh establishes -/

/-- The reading of a connection is paused and resumed as the watermarks say: with little
output pending it is not paused, and with much output pending it is, unless the
watermarks are equal and the pending output is as well. -/
structure Balanced (o : NetworkOptions) (conn : Connection) : Prop where
  resumed : conn.closeAfterWrite = false → conn.pending.length ≤ o.writeLowWatermarkBytes →
    conn.pending.length < o.writeHighWatermarkBytes → conn.readPaused = false
  paused : o.writeLowWatermarkBytes ≤ o.writeHighWatermarkBytes → conn.closeAfterWrite = false →
    conn.readPaused = false → conn.pending.length < o.writeHighWatermarkBytes ∨
      (o.writeLowWatermarkBytes = o.writeHighWatermarkBytes ∧
        conn.pending.length = o.writeHighWatermarkBytes)

theorem balanced_updateReadBackPressure (o : NetworkOptions) {conn : Connection}
    (hopen : conn.closed = false) : Balanced o (conn.updateReadBackPressure o) := by
  unfold updateReadBackPressure
  cases hafter : conn.closeAfterWrite with
  | true =>
      rw [if_pos (by simp)]
      exact ⟨fun h => by simp [hafter] at h, fun _ h => by simp [hafter] at h⟩
  | false =>
      rw [if_neg (by simp [hopen])]
      simp only [OutputBuffer.size_eq]
      split
      · next hpaused =>
        split
        · next hlow =>
          refine ⟨fun _ _ _ => rfl, fun hle _ _ => ?_⟩
          change conn.writeBuffer.data.length < _ ∨ _ ∧ conn.writeBuffer.data.length = _
          omega
        · next hlow =>
          exact ⟨fun _ hle _ => absurd hle hlow, fun _ _ h => by simp [hpaused] at h⟩
      · next hreading =>
        rw [Bool.not_eq_true] at hreading
        split
        · next hhigh =>
          refine ⟨fun _ _ hlt => ?_, fun _ _ hresumed => ?_⟩
          · change conn.writeBuffer.data.length < _ at hlt
            omega
          · cases hresumed
        · next hhigh => exact ⟨fun _ _ _ => hreading, fun _ _ _ => .inl (Nat.lt_of_not_le hhigh)⟩

/-- What `RefreshConnectionInterest` leads to: a closed connection, or one whose desired
interests are registered or asked for. -/
structure Refreshed (o : NetworkOptions) (before : Connection)
    (result : Connection × Option IoEvent) : Prop where
  registration : KeepsRegistration before result.1
  closed : result.1.closed = true → result.2 = none
  opened : result.1.closed = false → Balanced o result.1 ∧ result.1.desiredEvents ≠ .none ∧
    (result.2 = none ∧ result.1.registeredEvents = result.1.desiredEvents ∨
      result.2 = some result.1.desiredEvents)

theorem refreshed_of_closed (o : NetworkOptions) {before conn : Connection}
    (hkeeps : KeepsRegistration before conn) (hclosed : conn.closed = true) :
    Refreshed o before (conn, none) where
  registration := hkeeps
  closed _ := rfl
  opened hopen := by
    rw [hclosed] at hopen
    cases hopen

theorem refreshed_refreshInterest (o : NetworkOptions) {before conn : Connection}
    (hkeeps : KeepsRegistration before conn) : Refreshed o before (conn.refreshInterest o) := by
  have hupdate := hkeeps.trans (keepsRegistration_update o conn)
  unfold refreshInterest
  split
  · next hclosed => exact refreshed_of_closed o hkeeps hclosed
  next hopen =>
    rw [Bool.not_eq_true] at hopen
    have hbalanced := balanced_updateReadBackPressure o hopen
    have hstill : (conn.updateReadBackPressure o).closed = false :=
      (updateReadBackPressure_closed o conn).trans hopen
    simp only
    generalize conn.updateReadBackPressure o = updated at hupdate hbalanced hstill ⊢
    have hno (h : updated.closed = true) : False := by
      rw [hstill] at h
      cases h
    split
    · exact refreshed_of_closed o (hupdate.markClosed _) rfl
    split
    · exact refreshed_of_closed o (hupdate.markClosed _) rfl
    next hdesired =>
      split
      · next hsame =>
        exact ⟨hupdate, fun h => (hno h).elim,
          fun _ => ⟨hbalanced, hdesired, .inl ⟨rfl, hsame.symm⟩⟩⟩
      · exact ⟨hupdate, fun h => (hno h).elim, fun _ => ⟨hbalanced, hdesired, .inr rfl⟩⟩

theorem refreshed_beginDrain (o : NetworkOptions) (conn : Connection) :
    Refreshed o conn (conn.beginDrain o) := by
  unfold beginDrain
  simp only
  split
  · exact refreshed_of_closed o ⟨rfl, rfl, nofun⟩ rfl
  · exact refreshed_refreshInterest o ⟨rfl, rfl, id⟩

theorem refreshed_afterRead (o : NetworkOptions) (events : IoEvent) (input : IoInput Q)
    {before conn : Connection} (hkeeps : KeepsRegistration before conn) :
    Refreshed o before (conn.afterRead o events input) := by
  unfold afterRead
  have hwrite : KeepsRegistration before
      (if !conn.closed && events.write then conn.handleClientWrite o input else conn) :=
    iteInduction (fun _ => hkeeps.trans (keepsRegistration_handleClientWrite o input conn))
      fun _ => hkeeps
  generalize (if !conn.closed && events.write then conn.handleClientWrite o input else conn) =
    written at hwrite
  have hhang : KeepsRegistration before
      (if !written.closed && events.hangup then written.hangUp else written) :=
    iteInduction (fun _ => hwrite.trans (keepsRegistration_hangUp written)) fun _ => hwrite
  simp only
  generalize (if !written.closed && events.hangup then written.hangUp else written) = conn'
    at hhang
  split
  · exact refreshed_refreshInterest o hhang
  · next hclosed =>
    exact refreshed_of_closed o hhang (by simpa using hclosed)

theorem refreshed_handleEvent (o : NetworkOptions) (state : ServerState) (events : IoEvent)
    (input : IoInput Q) (store : Store Q) (conn : Connection) :
    Refreshed o conn (conn.handleEvent o state events input store).1 := by
  rw [handleEvent_cases]
  split
  · exact refreshed_of_closed o ⟨rfl, rfl, nofun⟩ rfl
  split
  · exact refreshed_afterRead o events input
      (keepsRegistration_handleClientRead o input store conn)
  · exact refreshed_afterRead o events input (.refl conn)

end Connection

namespace SubReactor

/-! ### The interest table -/

/-- A client is closed, or the poller holds the interests it has registered, which are
those it desires. -/
structure Attended (o : NetworkOptions) (poller : Poller) (fd : Int) (conn : Connection) :
    Prop where
  key : conn.fd = fd
  held : conn.closed = false → poller.interests.lookup fd = some conn.registeredEvents
  desired : conn.closed = false → conn.registeredEvents = conn.desiredEvents
  wanted : conn.closed = false → conn.desiredEvents ≠ .none
  balanced : conn.closed = false → conn.Balanced o

/-- Every client is attended. -/
def Coherent (o : NetworkOptions) (r : SubReactor Q) : Prop :=
  ∀ fd conn, r.clients.lookup fd = some conn → Attended o r.poller fd conn

theorem attended_of_closed (o : NetworkOptions) (poller : Poller) {fd : Int} {conn : Connection}
    (hfd : conn.fd = fd) (hclosed : conn.closed = true) : Attended o poller fd conn := by
  have hno (hopen : conn.closed = false) : False := by
    rw [hclosed] at hopen
    cases hopen
  exact ⟨hfd, fun h => (hno h).elim, fun h => (hno h).elim, fun h => (hno h).elim,
    fun h => (hno h).elim⟩

/-- The other clients of a table that changes at one descriptor. -/
theorem Attended.insert {o : NetworkOptions} {p : Poller} {fd : Int} {conn : Connection}
    (h : Attended o p fd conn) {fd' : Int} (hne : fd ≠ fd') (interests : IoEvent) :
    Attended o { p with interests := p.interests.insert fd' interests } fd conn where
  key := h.key
  held hopen := by
    rw [KeyedMap.lookup_insert_eq, if_neg hne]
    exact h.held hopen
  desired := h.desired
  wanted := h.wanted
  balanced := h.balanced

/-- The removal of closed clients leaves the interests of the others. -/
theorem lookup_removeClosed {removeOk : Int → Bool} {fds : List Int} {fd : Int} (h : fd ∉ fds)
    (p : Poller) :
    (fds.foldl (removeClosed removeOk) p).interests.lookup fd = p.interests.lookup fd := by
  induction fds generalizing p with
  | nil => rfl
  | cons fd' rest ih =>
      rw [List.foldl_cons, ih (fun hmem => h (List.mem_cons_of_mem _ hmem))]
      have hne : fd ≠ fd' := fun heq => h (heq ▸ List.mem_cons_self ..)
      unfold removeClosed Poller.remove
      cases p.interests.lookup fd' with
      | none => rfl
      | some held =>
          simp only
          split
          · rfl
          · next heq =>
            split at heq
            · cases heq
            · cases heq
              exact AList.lookup_erase_ne hne

/-- A client has been written, and the others keep their attention. -/
theorem Coherent.insert {o : NetworkOptions} {r : SubReactor Q} (h : Coherent o r)
    {poller : Poller} {fd : Int} {conn : Connection} (hnew : Attended o poller fd conn)
    (hothers : ∀ fd', fd' ≠ fd → ∀ other, Attended o r.poller fd' other →
      Attended o poller fd' other) (calls : List MetricCall) :
    Coherent o { r with poller, clients := r.clients.insert fd conn, calls } :=
  KeyedMap.forall_lookup_insert hnew
    fun fd' other hne hlook => hothers fd' hne other (h fd' other hlook)

/-- A closed connection, or one whose interests are registered already. -/
theorem attended_of_settled {o : NetworkOptions} {poller : Poller} {fd : Int}
    {before after : Connection} (hbefore : Attended o poller fd before)
    (h : Connection.Refreshed o before (after, none)) : Attended o poller fd after := by
  have hkey : after.fd = fd := h.registration.fd.trans hbefore.key
  cases hstate : after.closed with
  | true => exact attended_of_closed o poller hkey hstate
  | false =>
      obtain ⟨hbalanced, hwanted, hsame | hdesired⟩ := h.opened hstate
      · refine ⟨hkey, fun _ => ?_, fun _ => hsame.2, fun _ => hwanted, fun _ => hbalanced⟩
        rw [h.registration.registered]
        exact hbefore.held (h.registration.opened hstate)
      · cases hdesired

/-- The refreshed connection is registered, or its registration throws. -/
theorem coherent_registerInterest {o : NetworkOptions} {r : SubReactor Q} (h : Coherent o r)
    {fd : Int} {conn : Connection} (hlook : r.clients.lookup fd = some conn)
    {refreshed : Connection × Option IoEvent} (hrefreshed : Connection.Refreshed o conn refreshed)
    (modityOk : Bool) :
    Settled (Coherent o) (fun r => Coherent o r.fail)
      (r.registerInterest fd refreshed modityOk) := by
  have hbefore := h fd conn hlook
  obtain ⟨after, request⟩ := refreshed
  unfold registerInterest
  cases request with
  | none =>
      exact h.insert (attended_of_settled hbefore hrefreshed) (fun _ _ _ hother => hother) r.calls
  | some desired =>
      have hkey : after.fd = fd := hrefreshed.registration.fd.trans hbefore.key
      have hstate : after.closed = false := by
        rw [Bool.eq_false_iff]
        intro hclosed
        cases hrefreshed.closed hclosed
      obtain ⟨hbalanced, hwanted, hsame | hdesired⟩ := hrefreshed.opened hstate
      · cases hsame.1
      obtain rfl : desired = after.desiredEvents := Option.some.inj hdesired
      simp only
      cases hmodity : r.poller.modity after.fd after.desiredEvents modityOk with
      | error e =>
          intro fd' conn' hlook'
          cases hlook'
      | ok poller =>
          rw [hkey] at hmodity
          obtain rfl := Poller.modity_eq hmodity
          have hnew : Attended o { r.poller with
              interests := r.poller.interests.insert fd after.desiredEvents } fd
              { after with registeredEvents := after.desiredEvents } := by
            refine ⟨hkey, fun _ => ?_, fun _ => rfl, fun _ => hwanted,
              fun _ => ⟨hbalanced.resumed, hbalanced.paused⟩⟩
            rw [KeyedMap.lookup_insert_eq, if_pos rfl]
          exact h.insert hnew (fun fd' hne other hother => hother.insert hne _) r.calls

theorem coherent_cleanup {o : NetworkOptions} {r : SubReactor Q} (h : Coherent o r)
    (removeOk : Int → Bool) : Coherent o (r.cleanupClosedConnections removeOk) := by
  intro fd conn hlook
  obtain ⟨hlook, hopen⟩ := KeyedMap.lookup_filterValues.mp hlook
  have hattended := h fd conn hlook
  have hkept : fd ∉ (r.clients.entries.filter fun e => e.2.closed).map Sigma.fst := by
    intro hmem
    obtain ⟨⟨fd', conn'⟩, hentry, rfl⟩ := List.mem_map.mp hmem
    obtain ⟨hentry, hclosed⟩ := List.mem_filter.mp hentry
    rw [KeyedMap.mem_entries_iff_lookup, hlook] at hentry
    cases hentry
    simp only [Bool.not_eq_true'] at hopen
    rw [hopen] at hclosed
    cases hclosed
  refine ⟨hattended.key, fun hstate => ?_, hattended.desired, hattended.wanted,
    hattended.balanced⟩
  exact (lookup_removeClosed hkept r.poller).trans (hattended.held hstate)

/-- A new client reads. -/
theorem attended_accepted (o : NetworkOptions) (p : Poller) (fd : Int) :
    Attended o { p with
      interests := p.interests.insert fd (Connection.desiredEvents { fd }) } fd
      { fd, registeredEvents := Connection.desiredEvents { fd } } := by
  refine ⟨rfl, fun _ => ?_, fun _ => rfl, fun _ => nofun, fun _ =>
    ⟨fun _ _ _ => rfl, fun hle _ _ => ?_⟩⟩
  · rw [KeyedMap.lookup_insert_eq, if_pos rfl]
  · change 0 < _ ∨ _ ∧ 0 = _
    omega

theorem coherent_addClientInLoop {o : NetworkOptions} {r : SubReactor Q} (h : Coherent o r)
    (fd : Int) (addOk : Bool) : Coherent o (r.addClientInLoop fd addOk) := by
  have houtcome := r.addClientInLoop_outcome fd addOk
  generalize r.addClientInLoop fd addOk = after at houtcome ⊢
  cases houtcome with
  | refused => exact h
  | registered hnew hadd =>
      obtain rfl := Poller.add_eq hadd
      exact h.insert (attended_accepted o r.poller fd)
        (fun fd' hne other hother => hother.insert hne _) _

/-- Every operation of the event loop keeps the interest table in step. -/
theorem coherent_invariant (o : NetworkOptions) :
    Invariant o (fun _ => True) (Coherent (Q := Q) o) where
  event r fd conn events input modityOk hr hlook _ :=
    coherent_registerInterest (r := { r with
      store := (conn.handleEvent o r.state events input r.store).2 }) hr hlook
      (Connection.refreshed_handleEvent o r.state events input r.store conn) modityOk
  drain r fd conn modityOk hr hlook :=
    coherent_registerInterest hr hlook (Connection.refreshed_beginDrain o conn) modityOk
  cleanup r removeOk hr := coherent_cleanup hr removeOk
  close r reason hr := by
    intro fd conn hlook
    obtain ⟨before, hbefore, rfl⟩ := KeyedMap.lookup_mapValues.mp hlook
    exact attended_of_closed o r.poller (hr fd before hbefore).key rfl
  add r fd addOk hr := coherent_addClientInLoop hr fd addOk
  throws r _ := by
    intro fd conn hlook
    cases hlook
  control r _ _ _ _ _ _ _ _ hr := hr
  start r addOk threadOk hempty _ := by
    intro fd conn hlook
    have houtcome := r.start_outcome addOk threadOk
    have hclients : (r.start addOk threadOk).clients = r.clients := by
      generalize r.start addOk threadOk = after at houtcome ⊢
      cases houtcome with
      | refused hcreated => rfl
      | unregistered hcreated poller => rfl
      | running hcreated poller => rfl
      | threadless hcreated poller => rfl
    rw [hclients, hempty] at hlook
    cases hlook

theorem coherent_run (o : NetworkOptions) (backend : PollerBackend) (controlFd : Int)
    (store : Store Q) (actions : List (Action Q)) :
    Coherent o ((created backend controlFd store).run o actions) := by
  apply (coherent_invariant o).run
  · intro fd conn hlook
    cases hlook
  · intro action _
    cases action with
    | iterate input => exact fun _ => trivial
    | _ => trivial

/-- Between the iterations the poller holds for each client the interests it has
registered and desires: writing when output is pending, reading when little is pending
and it does not close, and no reading when it closes after the write. -/
theorem interests_in_step (o : NetworkOptions) (backend : PollerBackend) (controlFd : Int)
    (store : Store Q) (actions : List (Action Q)) :
    let r := (created backend controlFd store).run o actions
    ∀ fd conn, r.clients.lookup fd = some conn →
      conn.fd = fd ∧ conn.closed = false ∧
      r.poller.interests.lookup fd = some conn.registeredEvents ∧
      conn.registeredEvents = conn.desiredEvents ∧ conn.desiredEvents ≠ .none ∧
      (conn.pending ≠ [] → conn.registeredEvents.write = true) ∧
      (conn.closeAfterWrite = false → conn.pending.length ≤ o.writeLowWatermarkBytes →
        conn.pending.length < o.writeHighWatermarkBytes → conn.registeredEvents.read = true) ∧
      (conn.closeAfterWrite = true → conn.registeredEvents.read = false) := by
  intro r fd conn hlook
  have hopen := (tidy_run o backend controlFd store actions).opened fd conn hlook
  have hattended := coherent_run o backend controlFd store actions fd conn hlook
  have hdesired := hattended.desired hopen
  refine ⟨hattended.key, hopen, hattended.held hopen, hdesired, hattended.wanted hopen,
    fun hpending => ?_, fun hafter hlow hhigh => ?_, fun hafter => ?_⟩
  · rw [hdesired]
    have hnonempty : conn.writeBuffer.isEmpty = false :=
      (OutputBuffer.isEmpty_eq_false_iff _).mpr hpending
    simp [Connection.desiredEvents, hopen, hnonempty]
  · rw [hdesired]
    have hresumed := (hattended.balanced hopen).resumed hafter hlow hhigh
    simp [Connection.desiredEvents, hopen, hresumed, hafter]
  · rw [hdesired]
    simp [Connection.desiredEvents, hopen, hafter]

/-- Reading is paused at the high watermark, when the watermarks differ, the pending
output is not exactly the watermark or the connection closes after the write. -/
theorem paused_at_high_watermark (o : NetworkOptions) (h : o.Accepted)
    (backend : PollerBackend) (controlFd : Int) (store : Store Q) (actions : List (Action Q)) :
    let r := (created backend controlFd store).run o actions
    ∀ fd conn, r.clients.lookup fd = some conn →
      (o.writeLowWatermarkBytes < o.writeHighWatermarkBytes ∨
        conn.pending.length ≠ o.writeHighWatermarkBytes ∨ conn.closeAfterWrite = true) →
      o.writeHighWatermarkBytes ≤ conn.pending.length → conn.registeredEvents.read = false := by
  intro r fd conn hlook hapart hhigh
  have hopen := (tidy_run o backend controlFd store actions).opened fd conn hlook
  have hattended := coherent_run o backend controlFd store actions fd conn hlook
  rw [hattended.desired hopen]
  by_contra hread
  simp only [Connection.desiredEvents, hopen, Bool.false_eq_true, if_false, Bool.not_eq_false,
    Bool.and_eq_true, Bool.not_eq_true'] at hread
  obtain hlt | ⟨hsame, hexact⟩ := (hattended.balanced hopen).paused h.low_le_high hread.2 hread.1
  · exact absurd hlt (Nat.not_lt.mpr hhigh)
  · obtain hlt | hne | hafter := hapart
    · rw [hsame] at hlt
      exact Nat.lt_irrefl _ hlt
    · exact hne hexact
    · rw [hread.2] at hafter
      cases hafter

/-- A client whose response to a PING is pending. -/
def pendingPing : List (Action sortedExpirations) :=
  [.start true true, .enqueClient 7, .iterate (readPing [⟨3, { read := true }⟩]),
    .iterate (readPing [⟨7, { read := true }⟩])]

theorem paused_at_high_watermark_ping :
    let o : NetworkOptions := { writeHighWatermarkBytes := 9, writeLowWatermarkBytes := 8 }
    let r := (created .epoll 3 Store.empty).run o pendingPing
    ∃ conn, r.clients.lookup 7 = some conn ∧ conn.pending.length = 9 ∧
      conn.registeredEvents.read = false := by
  intro o r
  have hsome : (r.clients.lookup 7).map (·.pending.length) = some 9 := by decide
  obtain ⟨conn, hlook, hlength⟩ := Option.map_eq_some_iff.mp hsome
  exact ⟨conn, hlook, hlength, paused_at_high_watermark o (NetworkOptions.check_ok_iff.mp rfl)
    .epoll 3 Store.empty pendingPing 7 conn hlook (.inl (by decide)) (hlength ▸ Nat.le_refl 9)⟩

/-- With equal watermarks, the second call of `UpdateReadBackPressure` for one event
resumes the reading that the first one has paused. -/
theorem read_at_equal_watermarks :
    let o : NetworkOptions := { writeHighWatermarkBytes := 9, writeLowWatermarkBytes := 9 }
    let r := (created .epoll 3 Store.empty).run o pendingPing
    ConfigLoader.validate { network := o } = .ok () ∧
      (r.clients.lookup 7).map (fun conn => (conn.pending.length, conn.registeredEvents.read)) =
        some (9, true) := by
  decide

/-! ### Healthy connections -/

/-- With a positive high watermark no handler closes a connection for want of
interests. -/
theorem wanted_invariant {o : NetworkOptions} (hhigh : 0 < o.writeHighWatermarkBytes) :
    ConnectionInvariant (Q := Q) o (fun _ => True) (fun _ => True) Connection.Wanted where
  event conn state events input store hconn _ _ :=
    ⟨Connection.wanted_handleEvent hhigh hconn state events input store, trivial⟩
  drain conn hconn := by
    unfold Connection.beginDrain
    simp only
    split
    · simpa [Connection.Wanted, Connection.markClosed] using hconn
    · exact Connection.wanted_refreshInterest hhigh hconn
  register conn events hconn := hconn
  close conn reason hconn := by
    cases reason <;> simpa [Connection.Wanted, Connection.markClosed, ForcedClose.cause] using hconn
  fresh fd events := by simp [Connection.Wanted]

/-- An iteration whose ready events are readable sockets without data. -/
def idleRead (ready : List ReadyEvent) : LoopInput Q where
  ready := some ready
  drainOk := true
  io _ := ⟨.returned .wouldBlock, .returned .wouldBlock, fun _ => ⟨id, 0, [], 0⟩⟩
  modityOk _ := true
  addOk _ := true
  drainModityOk _ := true
  removeOk _ := true
  now := 0

/-- A client is accepted, and one event of it is handled. -/
def acceptAndRead : List (Action Q) :=
  [.start true true, .enqueClient 7, .iterate (idleRead [⟨3, { read := true }⟩]),
    .iterate (idleRead [⟨7, { read := true }⟩])]

/-- At a high watermark of zero, reading is paused without anything to send. -/
theorem handleEvent_at_zero {o : NetworkOptions} (h : o.Accepted)
    (hzero : o.writeHighWatermarkBytes = 0) (input : IoInput Q)
    (hrecv : input.recv.result = .wouldBlock) (store : Store Q) (fd : Int) (events : IoEvent) :
    (Connection.handleEvent o .running { read := true } input store
      { fd, registeredEvents := events }) =
        (((({ fd, registeredEvents := events, readPaused := true } : Connection).count
          .onReadPaused).markClosed .noInterest, none), store) := by
  have hread := h.read
  have hsize : (OutputBuffer.empty).size = 0 := rfl
  have hempty : (OutputBuffer.empty).isEmpty = true := rfl
  have hroom : ¬ o.maxReadBufferBytes ≤ 0 := by omega
  simp [Connection.handleEvent, Connection.handleClientRead, Connection.refreshInterest,
    Connection.updateReadBackPressure, Connection.desiredEvents, Connection.count, hrecv, hzero,
    hsize, hempty, hroom, IoEvent.none]

/-- The accepted client before its event. -/
def readingClient : SubReactor Q where
  state := .running
  publishedState := .running
  poller := ⟨.epoll, ((∅ : KeyedMap Int IoEvent).insert 3 { read := true }).insert 7
    { read := true }⟩
  controlFd := 3
  clients := (∅ : KeyedMap Int Connection).insert 7
    { fd := 7, registeredEvents := { read := true } }
  store := Store.empty
  calls := [.onConnectionAccepted]

/-- The client that wants neither to read nor to write. -/
def unwantedClient : Connection :=
  ((({ fd := 7, registeredEvents := { read := true }, readPaused := true } : Connection).count
    .onReadPaused).markClosed .noInterest)

/-- An iteration without a control event, whose ready events are handled. -/
theorem iterate_of_handled {o : NetworkOptions} {input : LoopInput Q} {ready : List ReadyEvent}
    {r handled : SubReactor Q} (hready : input.ready = some ready)
    (hcontrol : r.controlEventReceived ready = false)
    (hlive : ¬ (r.state = .created ∨ r.state = .stopped))
    (hhandled : handleReady o input.io input.modityOk ready r = (true, handled)) :
    r.iterate o input =
      (handled.cleanupClosedConnections input.removeOk).checkShutdownProgress input := by
  have hstopped : r.state ≠ .stopped := fun heq => hlive (.inr heq)
  unfold iterate iteration
  simp only [if_neg hlive, hready, hcontrol, Bool.false_eq_true, if_false, Bool.not_true,
    if_neg hstopped, hhandled]

/-- Its first event closes a client at a high watermark of zero. -/
theorem departed_at_zero {o : NetworkOptions} (h : o.Accepted)
    (hzero : o.writeHighWatermarkBytes = 0) :
    unwantedClient ∈
      ((created .epoll 3 (Store.empty : Store Q)).run o acceptAndRead).departed := by
  have hstart : (machine o).run (created .epoll 3 (Store.empty : Store Q))
      [.start true true, .enqueClient 7, .iterate (idleRead [⟨3, { read := true }⟩])] =
      readingClient := rfl
  have hhandled : handleReady o (idleRead [⟨7, { read := true }⟩] : LoopInput Q).io
      (fun _ => true) [⟨7, { read := true }⟩] readingClient =
        (true, { (readingClient : SubReactor Q) with
          clients := (readingClient : SubReactor Q).clients.insert 7 unwantedClient }) := by
    have hother : ¬ (7 : Int) = (readingClient : SubReactor Q).controlFd := by
      change ¬ (7 : Int) = 3
      omega
    unfold handleReady
    rw [if_neg hother]
    have hlook : (readingClient : SubReactor Q).clients.lookup 7 =
        some { fd := 7, registeredEvents := { read := true } } := rfl
    rw [hlook]
    simp only
    rw [show (readingClient : SubReactor Q).state = .running from rfl,
      handleEvent_at_zero h hzero _ rfl]
    rfl
  have hsplit : (acceptAndRead : List (Action Q)) =
      [.start true true, .enqueClient 7, .iterate (idleRead [⟨3, { read := true }⟩])] ++
        [.iterate (idleRead [⟨7, { read := true }⟩])] := rfl
  rw [hsplit, run, Machine.run_append, hstart, Machine.run_cons, Machine.run_nil]
  have hlive : ¬ ((readingClient : SubReactor Q).state = .created ∨
      (readingClient : SubReactor Q).state = .stopped) := by
    rintro (hstate | hstate)
    · cases hstate
    · cases hstate
  change _ ∈ (readingClient.iterate o (idleRead [⟨7, { read := true }⟩])).departed
  rw [iterate_of_handled rfl rfl hlive hhandled]
  exact List.mem_cons_self ..

/-- No connection is closed for want of interests exactly when the high watermark is
positive. -/
theorem wanted_iff (o : NetworkOptions) (h : o.Accepted) :
    (∀ (backend : PollerBackend) (controlFd : Int) (store : Store Q) (actions : List (Action Q))
      (conn : Connection),
      let r := (created backend controlFd store).run o actions
      conn ∈ r.departed ∨ (∃ fd, r.clients.lookup fd = some conn) →
        .noInterest ∉ conn.trace.causes) ↔
      0 < o.writeHighWatermarkBytes := by
  constructor
  · intro hwanted
    by_contra hhigh
    have hzero : o.writeHighWatermarkBytes = 0 := by omega
    exact hwanted .epoll 3 Store.empty acceptAndRead unwantedClient
      (.inl (departed_at_zero h hzero)) (List.mem_singleton.mpr rfl)
  · intro hhigh backend controlFd store actions conn r hconn
    have hanswers : ∀ action ∈ actions, action.Answers fun _ : IoInput Q => True := by
      intro action _
      cases action with
      | iterate input => exact fun _ => trivial
      | _ => trivial
    have hall : Everywhere (fun _ => True) Connection.Wanted r :=
      (wanted_invariant hhigh).run trivial hanswers
    obtain hmem | ⟨fd, hlook⟩ := hconn
    · exact hall.departed conn hmem
    · exact hall.clients fd conn hlook

theorem wanted_iff_default :
    let r := (created .epoll 3 (Store.empty : Store sortedExpirations)).run {} pendingPing
    ∃ conn, r.clients.lookup 7 = some conn ∧ .noInterest ∉ conn.trace.causes := by
  intro r
  have hsome : (r.clients.lookup 7).isSome = true := by decide
  obtain ⟨conn, hlook⟩ := Option.isSome_iff_exists.mp hsome
  exact ⟨conn, hlook, (wanted_iff {} (NetworkOptions.check_ok_iff.mp rfl)).mpr (by decide)
    .epoll 3 Store.empty pendingPing conn (.inr ⟨7, hlook⟩)⟩

/-- With watermarks of zero, which are accepted, the first event of an idle client
disconnects it. -/
theorem unwanted_at_zero :
    let o : NetworkOptions := { writeHighWatermarkBytes := 0, writeLowWatermarkBytes := 0 }
    let r := (created .epoll 3 (Store.empty : Store sortedExpirations)).run o acceptAndRead
    ConfigLoader.validate { network := o } = .ok () ∧ KeyedMap.size r.clients = 0 ∧
      r.departed.map (·.trace.causes) = [[.noInterest]] := by
  decide

end SubReactor

end TinyKv
