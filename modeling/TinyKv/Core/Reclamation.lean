import TinyKv.Core.KvStoreRuns

/-!
# The reclamation of expired entries

Clients use the store while it is swept. An expired entry nobody asks for is erased all the
same, and soon: once a moment has passed, no operation adds a record that was due by then, and
each sweep pops the earliest records first.
-/

namespace TinyKv.KvStore

open Foundation

variable {Q : ExpirationQueue}

/-- The number of records in the heap that are due at a time. -/
def dueBy (s : KvStore Q) (time : TimePoint) : Nat :=
  (Q.elems s.expirations).countP fun record => record.expireAt ≤ time

theorem dueBy_le {s s' : KvStore Q} (h : Q.elems s'.expirations ≤ Q.elems s.expirations)
    (time : TimePoint) : s'.dueBy time ≤ s.dueBy time :=
  Multiset.countP_le_of_le _ h

theorem dueBy_congr {s s' : KvStore Q} (h : s'.expirations = s.expirations) (time : TimePoint) :
    s'.dueBy time = s.dueBy time := by
  rw [dueBy, h, dueBy]

/-- Without due records no entry is due. -/
theorem WellFormed.lt_of_dueBy {s : KvStore Q} (wf : WellFormed s) {time : TimePoint}
    (h : s.dueBy time = 0) {key : Bytes} {entry : Entry} {t : TimePoint}
    (hlook : s.data.lookup key = some entry) (hexp : entry.expireAt = some t) : time < t := by
  have hmem := wf.recorded key entry t hlook hexp
  have hnone := Multiset.countP_eq_zero.mp h ⟨t, key, entry.generation⟩ hmem
  exact Int.not_le.mp hnone

/-! ### The operations of the clients -/

theorem ok_of_bind {α β : Type} {x : Except Fault α} {f : α → Except Fault β} {b : β}
    (h : x >>= f = .ok b) : ∃ a, x = .ok a ∧ f a = .ok b := by
  cases x with
  | error fault => cases h
  | ok a => exact ⟨a, rfl, h⟩

theorem expirations_eraseEntryLocked {s s' : KvStore Q} {key : Bytes} {entry : Entry}
    (h : s.eraseEntryLocked key entry = .ok s') : s'.expirations = s.expirations := by
  unfold eraseEntryLocked at h
  split at h
  · obtain ⟨_, -, h⟩ := ok_of_bind h
    obtain ⟨keys, -, h⟩ := ok_of_bind h
    cases h
    rfl
  · obtain ⟨_, -, h⟩ := ok_of_bind h
    obtain ⟨keys, -, h⟩ := ok_of_bind h
    cases h
    rfl

/-- Operations that erase an entry leave its record behind. -/
theorem expirations_erase {α : Type} {s : KvStore Q} {key : Bytes} {entry : Entry} {answer : α}
    {after : α × KvStore Q}
    (h : (do
      let s ← s.eraseEntryLocked key entry
      pure (answer, s)) = Except.ok after) : after.2.expirations = s.expirations := by
  obtain ⟨s', herase, h⟩ := ok_of_bind h
  cases h
  exact expirations_eraseEntryLocked herase

theorem expirations_set {s s' : KvStore Q} {key value : Bytes} (h : s.set key value = .ok s') :
    s'.expirations = s.expirations := by
  unfold set at h
  split at h
  · cases h
    rfl
  split at h
  · obtain ⟨keys, -, h⟩ := ok_of_bind h
    cases h
    rfl
  · cases h
    rfl

theorem expirations_get {s : KvStore Q} {now : TimePoint} {key : Bytes}
    {after : Option Bytes × KvStore Q} (h : s.get now key = .ok after) :
    after.2.expirations = s.expirations := by
  unfold get at h
  split at h
  · cases h
    rfl
  split at h
  · exact expirations_erase h
  · cases h
    rfl

theorem expirations_del {s : KvStore Q} {now : TimePoint} {key : Bytes}
    {after : Bool × KvStore Q} (h : s.del now key = .ok after) :
    after.2.expirations = s.expirations := by
  unfold del at h
  split at h
  · cases h
    rfl
  split at h
  · exact expirations_erase h
  · exact expirations_erase h

theorem expirations_ttl {s : KvStore Q} {now : TimePoint} {key : Bytes}
    {after : Int32 × KvStore Q} (h : s.ttl now key = .ok after) :
    after.2.expirations = s.expirations := by
  unfold ttl at h
  split at h
  · cases h
    rfl
  split at h
  · exact expirations_erase h
  split at h
  · cases h
    rfl
  · cases h
    rfl

/-- A deadline is set in the future. -/
theorem lt_deadline {now : TimePoint} {seconds : Int32} (h : 0 < seconds.toInt) :
    now < now + seconds.toInt * nanosPerSecond := by
  have hpos : 0 < seconds.toInt * nanosPerSecond := Int.mul_pos h (by decide)
  exact Int.lt_add_of_pos_right now hpos

theorem dueBy_expire {s : KvStore Q} (wf : WellFormed s) {now time : TimePoint}
    (hle : time ≤ now) {key : Bytes} {seconds : Int32} {after : Bool × KvStore Q}
    (h : s.expire now key seconds = .ok after) : after.2.dueBy time = s.dueBy time := by
  by_cases hrefused : seconds.toInt ≤ 0
  · rw [expire, if_pos hrefused] at h
    cases h
    rfl
  have hpos := Int.not_le.mp hrefused
  obtain hl | ⟨entry, hl, hexp⟩ | ⟨entry, hl, hlive⟩ := lookup_cases s.data now key
  · rw [expire, if_neg hrefused, hl] at h
    cases h
    rfl
  · rw [expire, if_neg hrefused, hl] at h
    simp only [hexp, if_true] at h
    exact dueBy_congr (expirations_erase h) time
  · rw [expire_live wf hpos (live?_live hl hlive)] at h
    cases h
    -- the pushed record is not due yet
    have hlater := Int.not_le.mpr (Int.lt_of_le_of_lt hle (lt_deadline hpos))
    rw [dueBy, expired, Q.elems_push, Multiset.countP_cons_of_neg _ (by exact hlater), dueBy]

/-! ### The sweep -/

/-- The top of the heap is due first: popping it leaves one due record less, if there was one. -/
theorem dueBy_popped {s : KvStore Q} {record : ExpirationRecord}
    (htop : Q.top? s.expirations = some record) (time : TimePoint) :
    s.popped.dueBy time = s.dueBy time - 1 := by
  have helems := Q.elems_pop s.expirations record htop
  have hcount : s.dueBy time =
      s.popped.dueBy time + if record.expireAt ≤ time then 1 else 0 := by
    rw [dueBy, helems, Multiset.countP_cons]
    rfl
  by_cases hdue : record.expireAt ≤ time
  · rw [if_pos hdue] at hcount
    omega
  · have hnone : s.dueBy time = 0 := by
      apply Multiset.countP_eq_zero.mpr
      intro other hmem hother
      have hfirst := Q.top?_first s.expirations record htop other hmem
      simp only [expirationCompare, decide_eq_false_iff_not, gt_iff_lt, Int.not_lt] at hfirst
      exact hdue (hfirst.trans hother)
    rw [if_neg hdue] at hcount
    omega

/-- No record is due by a time before the clock when the top is not. -/
theorem dueBy_of_top {s : KvStore Q} {now time : TimePoint} (hle : time ≤ now)
    (h : s.hasExpiredTop now = false) : s.dueBy time = 0 := by
  apply Multiset.countP_eq_zero.mpr
  intro record hmem hdue
  exact absurd (hdue.trans hle) (Int.not_le.mpr (future_of_hasExpiredTop_false h record hmem))

/-- The loop of a sweep pops due records until its budget is spent; by induction on the
budget. -/
theorem dueBy_sweepLoop {now time : TimePoint} (hle : time ≤ now) {budget : Nat}
    {result : SweepResult} {s : KvStore Q} {after : SweepResult × KvStore Q}
    (h : sweepLoop now budget result s = .ok after) :
    after.2.dueBy time ≤ s.dueBy time - budget := by
  induction budget generalizing result s with
  | zero =>
      rw [sweepLoop, pure_eq_ok, Except.ok.injEq] at h
      rw [← h]
      exact le_rfl
  | succ budget ih =>
      rw [sweepLoop] at h
      split at h
      · next htop =>
        rw [pure_eq_ok, Except.ok.injEq] at h
        rw [← h, dueBy_of_top hle (by simp [hasExpiredTop, htop])]
        exact Nat.zero_le _
      next record htop =>
      split at h
      · next hfuture =>
        rw [pure_eq_ok, Except.ok.injEq] at h
        rw [← h, dueBy_of_top hle (by simpa [hasExpiredTop, htop] using hfuture)]
        exact Nat.zero_le _
      -- whether the record is stale or not, it has gone
      have hrest : ∀ {result : SweepResult} {mid : KvStore Q},
          mid.expirations = s.popped.expirations → sweepLoop now budget result mid = .ok after →
            after.2.dueBy time ≤ s.dueBy time - (budget + 1) := by
        intro result mid hmid hloop
        have hdue := ih hloop
        rw [dueBy_congr hmid, dueBy_popped htop] at hdue
        omega
      simp only at h
      split at h
      · exact hrest rfl h
      split at h
      · exact hrest rfl h
      split at h
      · exact hrest rfl h
      split at h
      · exact hrest rfl h
      · next entry _ _ _ _ =>
        obtain ⟨erased, herase, h⟩ := ok_of_bind h
        exact hrest (expirations_eraseEntryLocked herase) h

/-- A sweep pops its budget of due records, or all of them. -/
theorem dueBy_sweepExpired {s : KvStore Q} (wf : WellFormed s) {now time : TimePoint}
    (hle : time ≤ now) (maxRecordsToProcess : Nat) :
    ∃ result s', s.sweepExpired now maxRecordsToProcess = .ok (result, s') ∧ WellFormed s' ∧
      s'.dueBy time ≤ s.dueBy time - maxRecordsToProcess := by
  obtain ⟨⟨counted, s₁⟩, hloop, hprogress⟩ := sweepLoop_progress now maxRecordsToProcess {} s wf
  have hdue := dueBy_sweepLoop hle hloop
  have hrun : s.sweepExpiredLocked now maxRecordsToProcess =
      .ok ({ counted with hasMoreExpired := s₁.hasExpiredTop now }, s₁) := by
    rw [sweepExpiredLocked, hloop, ok_bind]
    rfl
  have hshould := shouldRebuild_eq hprogress.wellFormed
  cases hneed : s₁.needsRebuild with
  | false =>
      refine ⟨{ counted with hasMoreExpired := s₁.hasExpiredTop now }, s₁, ?_,
        hprogress.wellFormed, hdue⟩
      simp [sweepExpired, hrun, hshould, hneed]
  | true =>
      obtain ⟨s₂, hbuild, hwf, -, -, -, hheap⟩ := rebuild_spec hprogress.wellFormed
      refine ⟨{ counted with hasMoreExpired := s₂.hasExpiredTop now, heapRebuilt := true }, s₂,
        ?_, hwf, (dueBy_le hheap time).trans hdue⟩
      rw [sweepExpired, hrun, ok_bind]
      simp [hshould, hneed, hbuild]

/-! ### Runs -/

/-- The number of records an operation may pop. -/
def budget : Op → Nat
  | .sweepExpired maxRecordsToProcess => maxRecordsToProcess
  | _ => 0

/-- What one operation leaves of the due records. -/
theorem dueBy_perform {s : KvStore Q} (wf : WellFormed s) {now time : TimePoint}
    (hle : time ≤ now) (op : Op) :
    ∃ reply s', s.perform now op = .ok (reply, s') ∧ WellFormed s' ∧
      s'.dueBy time ≤ s.dueBy time - budget op := by
  obtain ⟨reply, s', hrun, hwf⟩ := perform_wellFormed wf now op
  refine ⟨reply, s', hrun, hwf, ?_⟩
  cases op with
  | set key value =>
      obtain ⟨s₁, hset, h⟩ := ok_of_bind hrun
      cases h
      exact (dueBy_congr (expirations_set hset) time).le
  | get key =>
      obtain ⟨after, hget, h⟩ := ok_of_bind hrun
      cases h
      exact (dueBy_congr (expirations_get hget) time).le
  | del key =>
      obtain ⟨after, hdel, h⟩ := ok_of_bind hrun
      cases h
      exact (dueBy_congr (expirations_del hdel) time).le
  | expire key seconds =>
      obtain ⟨after, hexpire, h⟩ := ok_of_bind hrun
      cases h
      exact (dueBy_expire wf hle hexpire).le
  | ttl key =>
      obtain ⟨after, httl, h⟩ := ok_of_bind hrun
      cases h
      exact (dueBy_congr (expirations_ttl httl) time).le
  | stats =>
      cases hrun
      exact le_rfl
  | sweepExpired maxRecordsToProcess =>
      obtain ⟨after, hsweep, h⟩ := ok_of_bind hrun
      cases h
      obtain ⟨result, s₁, hswept, -, hdue⟩ := dueBy_sweepExpired wf hle maxRecordsToProcess
      rw [hsweep] at hswept
      cases hswept
      exact hdue

/-- The sweeps of a run pop due records until none is left; by induction on the run. -/
theorem dueBy_performAll {time : TimePoint} {ops : List (TimePoint × Op)}
    (hclock : ∀ op ∈ ops, time ≤ op.1) {s : KvStore Q} (wf : WellFormed s) :
    ∃ replies s', s.performAll ops = .ok (replies, s') ∧ WellFormed s' ∧
      s'.dueBy time ≤ s.dueBy time - (ops.map fun op => budget op.2).sum := by
  induction ops generalizing s with
  | nil => exact ⟨[], s, rfl, wf, le_rfl⟩
  | cons op rest ih =>
      obtain ⟨reply, s₁, hop, hwf₁, hdue₁⟩ :=
        dueBy_perform wf (hclock op List.mem_cons_self) op.2
      obtain ⟨replies, s₂, hrest, hwf₂, hdue₂⟩ :=
        ih (fun other hmem => hclock other (List.mem_cons_of_mem _ hmem)) hwf₁
      refine ⟨reply :: replies, s₂, by simp [performAll, hop, hrest], hwf₂, ?_⟩
      rw [List.map_cons, List.sum_cons]
      omega

/-- When no entry is due the cached counter counts the deadlines to come. -/
theorem WellFormed.expiringKeys_of_dueBy {s : KvStore Q} (wf : WellFormed s) {time : TimePoint}
    (h : s.dueBy time = 0) :
    s.expiringKeys =
      KeyedMap.countWhere (fun entry => isExpiring entry && !isExpired entry time) s.data := by
  rw [wf.expiring]
  apply List.countP_congr
  intro e hmem
  have hlook : s.data.lookup e.1 = some e.2 := KeyedMap.mem_entries_iff_lookup.mp hmem
  have hlive : isExpired e.2 time = false := by
    rw [← Bool.not_eq_true, isExpired_iff]
    rintro ⟨t, hexp, hle⟩
    exact absurd hle (Int.not_le.mpr (wf.lt_of_dueBy h hlook hexp))
  simp only [hlive, Bool.not_false, Bool.and_true]

/-- Take any reachable store and a time. However the clients' operations and the sweeps are
interleaved after it, once the budgets of the sweeps add up to the number of records due by
then, every entry whose deadline had come by then has been erased: none is left to be looked
up, or to be counted. -/
theorem expired_reclaimed (Q : ExpirationQueue) (s : KvStore Q) (hs : Reachable s)
    (time : TimePoint) (ops : List (TimePoint × Op)) (hclock : ∀ op ∈ ops, time ≤ op.1)
    (hbudget : s.dueBy time ≤ (ops.map fun op => budget op.2).sum) :
    ∃ replies s', s.performAll ops = .ok (replies, s') ∧
      (∀ key entry t, s'.data.lookup key = some entry → entry.expireAt = some t → time < t) ∧
      s'.stats.expiringKeys =
        KeyedMap.countWhere (fun entry => isExpiring entry && !isExpired entry time) s'.data := by
  obtain ⟨replies, s', hrun, wf, hdue⟩ := dueBy_performAll hclock hs.wellFormed
  have hnone : s'.dueBy time = 0 := by omega
  exact ⟨replies, s', hrun, fun key entry t => wf.lt_of_dueBy hnone,
    wf.expiringKeys_of_dueBy hnone⟩

/-- Two keys expire while nobody asks for them; between two sweeps another is set to expire. -/
theorem expired_reclaimed_between_clients :
    let s : KvStore sortedExpirations := finalStore
      [(0, .set (ascii "a") (ascii "1")), (0, .expire (ascii "a") 1),
        (0, .expire (ascii "a") 2), (0, .set (ascii "b") (ascii "2")), (0, .expire (ascii "b") 1)]
    ∃ replies s', s.performAll
        [(3000000000, .sweepExpired 2), (3000000001, .set (ascii "c") (ascii "3")),
          (3000000002, .expire (ascii "c") 5), (3000000003, .sweepExpired 1)] =
        .ok (replies, s') ∧
      (∀ key entry t, s'.data.lookup key = some entry → entry.expireAt = some t →
        3000000000 < t) ∧
      s'.stats.expiringKeys = KeyedMap.countWhere
        (fun entry => isExpiring entry && !isExpired entry 3000000000) s'.data :=
  expired_reclaimed sortedExpirations _ (reachable_finalStore _) 3000000000 _ (by decide)
    (by decide)

end TinyKv.KvStore
