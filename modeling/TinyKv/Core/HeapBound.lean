import TinyKv.Core.KvStoreRuns

/-!
# The size of the heap after a sweep

Stale records leave the heap when they come to its top, or when a sweep rebuilds the heap.
The two thresholds of the rebuild bound what a sweep leaves behind by the number of keys
that have a deadline.
-/

namespace TinyKv.KvStore

open Foundation

variable {Q : ExpirationQueue}

/-- The heap holds the records of the live entries and nothing else. -/
def Fresh (s : KvStore Q) : Prop := Q.elems s.expirations = ↑s.liveRecords

theorem WellFormed.length_liveRecords {s : KvStore Q} (wf : WellFormed s) :
    s.liveRecords.length = s.expiringKeys := by
  rw [KvStore.length_liveRecords, wf.expiring]

theorem Fresh.heapSize {s : KvStore Q} (hfresh : s.Fresh) (wf : WellFormed s) :
    s.heapSize = s.expiringKeys := by
  rw [KvStore.heapSize, PriorityQueue.size, hfresh, Multiset.coe_card]
  exact wf.length_liveRecords

/-- A rebuilt heap is fresh. -/
theorem fresh_of_rebuild {s s' : KvStore Q} (wf : WellFormed s)
    (h : s.rebuildExpirationHeapLocked = .ok s') : s'.Fresh := by
  by_cases hzero : s.expiringKeys = 0
  · have hnil : s.liveRecords = [] := List.length_eq_zero_iff.mp (wf.length_liveRecords.trans hzero)
    rw [rebuildExpirationHeapLocked, if_pos hzero, pure_eq_ok, Except.ok.injEq] at h
    subst h
    change Q.elems (Q.make []) = ↑s.liveRecords
    rw [Q.elems_make, hnil]
  · rw [rebuildExpirationHeapLocked, if_neg hzero,
      check_of (decide_eq_true wf.length_liveRecords), ok_bind, pure_eq_ok, Except.ok.injEq] at h
    subst h
    exact Q.elems_make _

/-- What the thresholds of the rebuild leave. -/
theorem heapSize_of_needsRebuild_false {s : KvStore Q} (wf : WellFormed s)
    (h : s.needsRebuild = false) :
    (s.expiringKeys = 0 → s.heapSize = 0) ∧
      (s.heapSize < minHeapRecordsForRebuild ∨
        s.heapSize < s.expiringKeys + max minStaleRecordsForRebuild s.expiringKeys) := by
  have hle := wf.expiringKeys_le_heapSize
  simp only [needsRebuild, Bool.and_eq_false_iff, Bool.or_eq_false_iff, decide_eq_false_iff_not]
    at h
  constructor
  · intro hzero
    omega
  · simp only [minHeapRecordsForRebuild, minStaleRecordsForRebuild] at h ⊢
    omega

/-- The loop of the sweep does not touch the flag of the rebuild. -/
theorem sweepLoop_heapRebuilt {now : TimePoint} {budget : Nat} {result : SweepResult}
    {s : KvStore Q} {after : SweepResult × KvStore Q}
    (h : sweepLoop now budget result s = .ok after) :
    after.1.heapRebuilt = result.heapRebuilt := by
  induction budget generalizing result s with
  | zero =>
      rw [sweepLoop, pure_eq_ok, Except.ok.injEq] at h
      rw [← h]
  | succ budget ih =>
      rw [sweepLoop] at h
      split at h
      · rw [pure_eq_ok, Except.ok.injEq] at h
        rw [← h]
      split at h
      · rw [pure_eq_ok, Except.ok.injEq] at h
        rw [← h]
      simp only at h
      split at h
      · exact (ih h).trans rfl
      split at h
      · exact (ih h).trans rfl
      split at h
      · exact (ih h).trans rfl
      split at h
      · exact (ih h).trans rfl
      · next record _ _ _ entry _ _ _ _ =>
        cases herase : s.popped.eraseEntryLocked record.key entry with
        | error fault =>
            rw [popped] at herase
            rw [herase] at h
            cases h
        | ok erased =>
            rw [popped] at herase
            rw [herase, ok_bind] at h
            exact (ih h).trans rfl

/-- A sweep leaves the heap below the thresholds, or rebuilds it. -/
theorem sweepExpired_heap {s : KvStore Q} (wf : WellFormed s) (now : TimePoint)
    (maxRecordsToProcess : Nat) :
    ∃ result s', s.sweepExpired now maxRecordsToProcess = .ok (result, s') ∧ WellFormed s' ∧
      ((result.heapRebuilt = false ∧ s'.needsRebuild = false) ∨
        (result.heapRebuilt = true ∧ s'.Fresh)) := by
  obtain ⟨⟨counted, s₁⟩, hloop, hprogress⟩ := sweepLoop_progress now maxRecordsToProcess {} s wf
  have hrun : s.sweepExpiredLocked now maxRecordsToProcess =
      .ok ({ counted with hasMoreExpired := s₁.hasExpiredTop now }, s₁) := by
    rw [sweepExpiredLocked, hloop, ok_bind]
    rfl
  have hshould := shouldRebuild_eq hprogress.wellFormed
  cases hneed : s₁.needsRebuild with
  | false =>
      refine ⟨{ counted with hasMoreExpired := s₁.hasExpiredTop now }, s₁, ?_,
        hprogress.wellFormed, .inl ⟨sweepLoop_heapRebuilt hloop, hneed⟩⟩
      simp [sweepExpired, hrun, hshould, hneed]
  | true =>
      obtain ⟨s₂, hbuild, hwf, -⟩ := rebuild_spec hprogress.wellFormed
      refine ⟨{ counted with hasMoreExpired := s₂.hasExpiredTop now, heapRebuilt := true }, s₂,
        ?_, hwf, .inr ⟨rfl, fresh_of_rebuild hprogress.wellFormed hbuild⟩⟩
      simp [sweepExpired, hrun, hshould, hneed, hbuild]

/-- The keys with a deadline, in map order. -/
def expiringKeyList (s : KvStore Q) : List Bytes :=
  (s.data.entries.filter fun e => isExpiring e.2).map Sigma.fst

theorem map_key_liveRecords (s : KvStore Q) :
    s.liveRecords.map ExpirationRecord.key = s.expiringKeyList := by
  simp only [liveRecords, expiringKeyList]
  induction s.data.entries with
  | nil => rfl
  | cons e rest ih =>
      cases hexp : e.2.expireAt with
      | none => simpa [recordOf, isExpiring, hexp] using ih
      | some t => simpa [recordOf, isExpiring, hexp] using ih

/-- After every sweep the heap is bounded by the keys that have a deadline: it is empty when
there are none, below the threshold or within the stale records that are tolerated otherwise,
and after a rebuild it holds one record for each of these keys. -/
theorem sweepExpired_bounds_heap (Q : ExpirationQueue) (s : KvStore Q) (hs : Reachable s)
    (now : TimePoint) (maxRecordsToProcess : Nat) :
    ∃ result s', s.sweepExpired now maxRecordsToProcess = .ok (result, s') ∧
      let expiring := KeyedMap.countWhere (fun entry => entry.expireAt.isSome) s'.data
      (expiring = 0 → s'.heapSize = 0) ∧
      (s'.heapSize < 4096 ∨ s'.heapSize < expiring + max 1024 expiring) ∧
      (result.heapRebuilt = true → s'.heapSize = expiring ∧
        (Q.elems s'.expirations).map ExpirationRecord.key = ↑s'.expiringKeyList) := by
  obtain ⟨result, s', hrun, hwf, hheap⟩ := sweepExpired_heap hs.wellFormed now maxRecordsToProcess
  refine ⟨result, s', hrun, ?_⟩
  have hcount : KeyedMap.countWhere (fun entry => entry.expireAt.isSome) s'.data =
      s'.expiringKeys := hwf.expiring.symm
  simp only [hcount]
  obtain ⟨hrebuilt, hneed⟩ | ⟨hrebuilt, hfresh⟩ := hheap
  · obtain ⟨hempty, hbound⟩ := heapSize_of_needsRebuild_false hwf hneed
    refine ⟨hempty, hbound, fun hflag => ?_⟩
    rw [hrebuilt] at hflag
    cases hflag
  · have hsize := hfresh.heapSize hwf
    refine ⟨fun hzero => hsize.trans hzero, .inr ?_, fun _ => ⟨hsize, ?_⟩⟩
    · rw [hsize]
      omega
    · rw [hfresh, Multiset.map_coe, map_key_liveRecords]

/-- A sweep that finds no key with a deadline, and a record that is stale. -/
theorem sweepExpired_bounds_heap_stale_record :
    let s : KvStore sortedExpirations := finalStore
      [(0, .set (ascii "a") (ascii "1")), (0, .expire (ascii "a") 1),
        (0, .set (ascii "a") (ascii "2"))]
    s.heapSize = 1 ∧ ∃ result s', s.sweepExpired 0 1024 = .ok (result, s') ∧
      let expiring := KeyedMap.countWhere (fun entry => entry.expireAt.isSome) s'.data
      (expiring = 0 → s'.heapSize = 0) ∧
      (s'.heapSize < 4096 ∨ s'.heapSize < expiring + max 1024 expiring) ∧
      (result.heapRebuilt = true → s'.heapSize = expiring ∧
        (sortedExpirations.elems s'.expirations).map ExpirationRecord.key =
          ↑s'.expiringKeyList) :=
  ⟨by decide,
    sweepExpired_bounds_heap sortedExpirations _ (reachable_finalStore _) 0 1024⟩

end TinyKv.KvStore
