import TinyKv.Core.KvStoreOperations

/-!
# The sweep and the heap rebuild

One loop iteration pops the top record. Either the record is stale and only the
heap changes, or it is the record of a live entry and both go. `SweepProgress`
collects what any number of iterations preserves and counts.
-/

namespace TinyKv.KvStore

open Foundation

variable {Q : ExpirationQueue}

/-- The store after popping the top of the heap. -/
def popped (s : KvStore Q) : KvStore Q :=
  { s with expirations := Q.pop s.expirations }

/-- The sweep removes the entry of a record exactly when this holds. -/
def Matches (s : KvStore Q) (record : ExpirationRecord) (entry : Entry) : Prop :=
  s.data.lookup record.key = some entry ∧ entry.generation = record.generation ∧
    entry.expireAt = some record.expireAt

theorem issued_popped {s : KvStore Q} (wf : WellFormed s) {record : ExpirationRecord}
    (htop : Q.top? s.expirations = some record) :
    ∀ r ∈ Q.elems s.popped.expirations, r.generation ≤ s.nextExpirationGeneration :=
  fun r hr => wf.issued r (Multiset.mem_of_le (Q.elems_pop_le htop) hr)

theorem distinct_popped {s : KvStore Q} (wf : WellFormed s) {record : ExpirationRecord}
    (htop : Q.top? s.expirations = some record) :
    ((Q.elems s.popped.expirations).map ExpirationRecord.generation).Nodup :=
  Multiset.nodup_of_le (Multiset.map_le_map (Q.elems_pop_le htop)) wf.distinct

/-- Popping a stale record keeps the invariant: no entry loses its record. -/
theorem WellFormed.popped_stale {s : KvStore Q} (wf : WellFormed s) {record : ExpirationRecord}
    (htop : Q.top? s.expirations = some record)
    (hstale : ∀ entry, ¬ Matches s record entry) : WellFormed s.popped where
  persistent := wf.persistent
  expiring := wf.expiring
  recorded := by
    intro key entry t hlook hexp
    have hmem := wf.recorded key entry t hlook hexp
    rw [Q.elems_pop _ record htop, Multiset.mem_cons] at hmem
    obtain rfl | hmem := hmem
    · exact absurd ⟨hlook, rfl, hexp⟩ (hstale entry)
    · exact hmem
  issued := issued_popped wf htop
  distinct := distinct_popped wf htop

/-- Popping the record of a live entry together with the entry keeps the invariant. -/
theorem WellFormed.popped_matching {s : KvStore Q} (wf : WellFormed s)
    {record : ExpirationRecord} {entry : Entry} (htop : Q.top? s.expirations = some record)
    (hm : Matches s record entry) :
    s.popped.eraseEntryLocked record.key entry = .ok (s.popped.erased record.key entry) ∧
      WellFormed (s.popped.erased record.key entry) := by
  have hc : Counted s.popped := ⟨wf.persistent, wf.expiring⟩
  refine ⟨eraseEntryLocked_eq hc hm.1, ?_⟩
  have hc' := hc.erased hm.1
  refine ⟨hc'.persistent, hc'.expiring, ?_, issued_popped wf htop, distinct_popped wf htop⟩
  intro key e t hlook hexp
  rw [erased_data, KeyedMap.lookup_erase_eq] at hlook
  split at hlook
  · cases hlook
  · next hne =>
    have hmem := wf.recorded key e t hlook hexp
    rw [Q.elems_pop _ record htop, Multiset.mem_cons] at hmem
    obtain rfl | hmem := hmem
    · exact absurd rfl hne
    · exact hmem

/-- What some iterations of the sweep loop, at most `budget` of them, achieve. -/
structure SweepProgress (now : TimePoint) (budget : Nat) (before : SweepResult × KvStore Q)
    (after : SweepResult × KvStore Q) : Prop where
  wellFormed : WellFormed after.2
  pruned : Pruned now before.2.data after.2.data
  heap_le : Q.elems after.2.expirations ≤ Q.elems before.2.expirations
  popped : after.1.processed + after.2.heapSize = before.1.processed + before.2.heapSize
  erased : after.1.removed + after.2.data.size = before.1.removed + before.2.data.size
  removed_le : after.1.removed + before.1.processed ≤ before.1.removed + after.1.processed
  within : after.1.processed ≤ before.1.processed + budget
  finished : after.1.processed = before.1.processed + budget ∨ after.2.hasExpiredTop now = false

theorem SweepProgress.stop {now : TimePoint} {result : SweepResult} {s : KvStore Q}
    (wf : WellFormed s) (budget : Nat) (h : budget = 0 ∨ s.hasExpiredTop now = false) :
    SweepProgress now budget (result, s) (result, s) where
  wellFormed := wf
  pruned := Pruned.refl now _
  heap_le := le_rfl
  popped := rfl
  erased := rfl
  removed_le := le_rfl
  within := Nat.le_add_right _ _
  finished := h.imp (fun hb => by simp [hb]) id

/-- One pop followed by the progress of the remaining iterations. -/
theorem SweepProgress.cons {now : TimePoint} {budget : Nat} {result : SweepResult}
    {s mid : KvStore Q} {after : SweepResult × KvStore Q} {record : ExpirationRecord}
    {removed : Nat} (htop : Q.top? s.expirations = some record)
    (hheap : mid.expirations = Q.pop s.expirations) (hpruned : Pruned now s.data mid.data)
    (hremoved : removed ≤ 1) (hsize : removed + mid.data.size = s.data.size)
    (hrest : SweepProgress now budget
      ({ result with processed := result.processed + 1, removed := result.removed + removed },
        mid) after) :
    SweepProgress now (budget + 1) (result, s) after := by
  have hpop : s.heapSize = mid.heapSize + 1 := by
    simpa [heapSize, hheap] using Q.size_pop htop
  have h₁ := hrest.popped
  have h₂ := hrest.erased
  have h₃ := hrest.removed_le
  have h₄ := hrest.within
  constructor
  · exact hrest.wellFormed
  · exact hpruned.trans hrest.pruned
  · exact (hheap ▸ hrest.heap_le).trans (Q.elems_pop_le htop)
  · simp only at h₁ ⊢
    omega
  · simp only at h₂ ⊢
    omega
  · simp only at h₃ ⊢
    omega
  · simp only at h₄ ⊢
    omega
  · obtain hf | hf := hrest.finished
    · exact .inl (by simp only at hf ⊢; omega)
    · exact .inr hf

theorem size_erase {data : KeyedMap Bytes Entry} {key : Bytes} {entry : Entry}
    (h : data.lookup key = some entry) :
    1 + KeyedMap.size (data.erase key) = KeyedMap.size data := by
  have := KeyedMap.countWhere_erase (fun _ => true) h
  simp only [KeyedMap.countWhere, List.countP_true, if_true] at this
  simp only [KeyedMap.size]
  omega

/-- The loop never faults and makes progress, by induction on the budget. -/
theorem sweepLoop_progress (now : TimePoint) (budget : Nat) (result : SweepResult)
    (s : KvStore Q) (wf : WellFormed s) :
    ∃ after, sweepLoop now budget result s = .ok after ∧
      SweepProgress now budget (result, s) after := by
  induction budget generalizing result s with
  | zero => exact ⟨(result, s), rfl, SweepProgress.stop wf 0 (.inl rfl)⟩
  | succ budget ih =>
      cases htop : Q.top? s.expirations with
      | none =>
          refine ⟨(result, s), by simp [sweepLoop, htop], SweepProgress.stop wf _ (.inr ?_)⟩
          simp [hasExpiredTop, htop]
      | some record =>
          by_cases hnow : record.expireAt > now
          · refine ⟨(result, s), by simp [sweepLoop, htop, hnow],
              SweepProgress.stop wf _ (.inr ?_)⟩
            simpa [hasExpiredTop, htop] using hnow
          · by_cases hm : ∃ entry, Matches s record entry
            · obtain ⟨entry, hlook, hgen, hexp⟩ := hm
              obtain ⟨hok, hwf⟩ := wf.popped_matching htop ⟨hlook, hgen, hexp⟩
              obtain ⟨after, hrun, hprog⟩ := ih
                { result with processed := result.processed + 1, removed := result.removed + 1 }
                _ hwf
              refine ⟨after, ?_, SweepProgress.cons htop
                (show (s.popped.erased record.key entry).expirations = _ from rfl)
                (Pruned.erase hlook hexp (not_lt.mp hnow)) le_rfl
                (size_erase hlook) hprog⟩
              rw [← hrun]
              simp only [popped] at hok
              simp [sweepLoop, htop, hnow, hlook, hgen, hexp, hok, popped]
            · have hwf := wf.popped_stale htop (not_exists.mp hm)
              obtain ⟨after, hrun, hprog⟩ := ih
                { result with processed := result.processed + 1 } _ hwf
              refine ⟨after, ?_, SweepProgress.cons htop
                (show s.popped.expirations = _ from rfl) (Pruned.refl now _) (Nat.zero_le 1)
                (Nat.zero_add _) hprog⟩
              rw [← hrun]
              cases hlook : s.data.lookup record.key with
              | none => simp [sweepLoop, htop, hnow, hlook, popped]
              | some entry =>
                  have hne : entry.generation = record.generation →
                      ¬ entry.expireAt = some record.expireAt :=
                    fun hgen hexp => hm ⟨entry, hlook, hgen, hexp⟩
                  by_cases hgen : entry.generation = record.generation
                  · simp [sweepLoop, htop, hnow, hlook, hgen, hne hgen, popped]
                  · simp [sweepLoop, htop, hnow, hlook, hgen, popped]

/-! ### Completeness -/

/-- Without an expired record on top every record lies in the future. -/
theorem future_of_hasExpiredTop_false {s : KvStore Q} {now : TimePoint}
    (h : s.hasExpiredTop now = false) :
    ∀ record ∈ Q.elems s.expirations, now < record.expireAt := by
  refine Q.forall_elems_of_top? ?_ ?_
  · intro a b hab ha
    simp only [expirationCompare, gt_iff_lt, decide_eq_false_iff_not, not_lt] at hab
    exact lt_of_lt_of_le ha hab
  · intro a ha
    simpa [hasExpiredTop, ha] using h

/-- Without an expired record on top no expired entry is stored. -/
theorem WellFormed.unexpired {s : KvStore Q} (wf : WellFormed s) {now : TimePoint}
    (h : s.hasExpiredTop now = false) {key : Bytes} {entry : Entry} {t : TimePoint}
    (hlook : s.data.lookup key = some entry) (hexp : entry.expireAt = some t) : now < t :=
  future_of_hasExpiredTop_false h _ (wf.recorded key entry t hlook hexp)

theorem hasExpiredTop_of_mem {s : KvStore Q} {now : TimePoint} {record : ExpirationRecord}
    (hmem : record ∈ Q.elems s.expirations) (hle : record.expireAt ≤ now) :
    s.hasExpiredTop now = true := by
  by_contra h
  exact absurd hle
    (not_le.mpr (future_of_hasExpiredTop_false (Bool.eq_false_iff.mpr h) record hmem))

/-! ### The rebuild -/

/-- The condition `ShouldRebuildExpirationHeapLocked` evaluates. -/
def needsRebuild (s : KvStore Q) : Bool :=
  decide (s.heapSize ≠ 0) &&
    (decide (s.expiringKeys = 0) ||
      (decide (minHeapRecordsForRebuild ≤ s.heapSize) &&
        decide (minStaleRecordsForRebuild ≤ s.heapSize - s.expiringKeys) &&
        decide (s.expiringKeys ≤ s.heapSize - s.expiringKeys)))

theorem shouldRebuild_eq {s : KvStore Q} (wf : WellFormed s) :
    s.shouldRebuildExpirationHeapLocked = .ok s.needsRebuild := by
  have hle := wf.expiringKeys_le_heapSize
  by_cases h₀ : s.heapSize = 0
  · simp [shouldRebuildExpirationHeapLocked, needsRebuild, h₀]
  by_cases h₁ : s.expiringKeys = 0
  · simp [shouldRebuildExpirationHeapLocked, needsRebuild, h₀, h₁]
  by_cases h₂ : s.heapSize < minHeapRecordsForRebuild
  · simp [shouldRebuildExpirationHeapLocked, needsRebuild, h₀, h₁, h₂]
  · have h₃ := not_lt.mp h₂
    simp [shouldRebuildExpirationHeapLocked, needsRebuild, h₀, h₁, h₂, h₃, check_of, hle,
      subtract_of_le]

theorem rebuild_spec {s : KvStore Q} (wf : WellFormed s) :
    ∃ s', s.rebuildExpirationHeapLocked = .ok s' ∧ WellFormed s' ∧ s'.data = s.data ∧
      s'.expiringKeys = s.expiringKeys ∧ s'.heapSize = s.expiringKeys ∧
      Q.elems s'.expirations ≤ Q.elems s.expirations := by
  have hlen : s.liveRecords.length = s.expiringKeys := by
    rw [length_liveRecords, wf.expiring]
  have hwf : WellFormed { s with expirations := Q.make s.liveRecords } := by
    refine ⟨wf.persistent, wf.expiring, ?_, ?_, ?_⟩
    · intro key entry t hlook hexp
      simpa only [Q.elems_make, Multiset.mem_coe] using
        mem_liveRecords.mpr ⟨entry, hlook, hexp, rfl⟩
    · intro record hmem
      rw [Q.elems_make] at hmem
      exact wf.issued record (Multiset.mem_of_le wf.liveRecords_le hmem)
    · rw [Q.elems_make]
      exact Multiset.nodup_of_le (Multiset.map_le_map wf.liveRecords_le) wf.distinct
  by_cases h₀ : s.expiringKeys = 0
  · have hnil : s.liveRecords = [] := List.length_eq_zero_iff.mp (hlen.trans h₀)
    rw [hnil] at hwf
    refine ⟨{ s with expirations := Q.make [] }, by simp [rebuildExpirationHeapLocked, h₀],
      hwf, rfl, rfl, by simp [heapSize, h₀], ?_⟩
    rw [Q.elems_make]
    exact Multiset.zero_le _
  · refine ⟨{ s with expirations := Q.make s.liveRecords }, ?_, hwf, rfl, rfl, ?_, ?_⟩
    · simp [rebuildExpirationHeapLocked, h₀, hlen, check_of]
    · simp [heapSize, hlen]
    · simpa only [Q.elems_make] using wf.liveRecords_le

/-! ### The whole sweep -/

/-- What `SweepExpired` guarantees of its result and of the store it leaves. -/
structure Swept (now : TimePoint) (maxRecordsToProcess : Nat) (s : KvStore Q)
    (result : SweepResult) (s' : KvStore Q) : Prop where
  wellFormed : WellFormed s'
  pruned : Pruned now s.data s'.data
  removed : result.removed + s'.data.size = s.data.size
  removed_le : result.removed ≤ result.processed
  processed_le : result.processed ≤ maxRecordsToProcess
  more : result.hasMoreExpired = s'.hasExpiredTop now
  shrinks : result.hasMoreExpired = true → s'.heapSize + maxRecordsToProcess ≤ s.heapSize

theorem sweepExpiredLocked_spec {s : KvStore Q} (wf : WellFormed s) (now : TimePoint)
    (maxRecordsToProcess : Nat) :
    ∃ result s', s.sweepExpiredLocked now maxRecordsToProcess = .ok (result, s') ∧
      Swept now maxRecordsToProcess s result s' := by
  obtain ⟨⟨result, s'⟩, hrun, hprog⟩ := sweepLoop_progress now maxRecordsToProcess {} s wf
  refine ⟨_, s', by simp [sweepExpiredLocked, hrun]; rfl, ?_⟩
  have hpopped := hprog.popped
  have hwithin := hprog.within
  simp only [Nat.zero_add] at hpopped hwithin
  constructor
  · exact hprog.wellFormed
  · exact hprog.pruned
  · simpa using hprog.erased
  · simpa using hprog.removed_le
  · exact hwithin
  · rfl
  · intro hmore
    obtain hfull | hdone := hprog.finished
    · simp only [Nat.zero_add] at hfull
      omega
    · rw [hdone] at hmore
      cases hmore

theorem sweepExpired_spec {s : KvStore Q} (wf : WellFormed s) (now : TimePoint)
    (maxRecordsToProcess : Nat) :
    ∃ result s', s.sweepExpired now maxRecordsToProcess = .ok (result, s') ∧
      Swept now maxRecordsToProcess s result s' := by
  obtain ⟨result, s₁, hrun, hswept⟩ := sweepExpiredLocked_spec wf now maxRecordsToProcess
  cases hneed : s₁.needsRebuild with
  | false =>
      refine ⟨result, s₁, ?_, hswept⟩
      simp [sweepExpired, hrun, shouldRebuild_eq hswept.wellFormed, hneed]
  | true =>
      obtain ⟨s₂, hbuild, hwf, hdata, -, -, hle⟩ := rebuild_spec hswept.wellFormed
      refine ⟨_, s₂, by
        simp [sweepExpired, hrun, shouldRebuild_eq hswept.wellFormed, hneed, hbuild]; rfl, ?_⟩
      constructor
      · exact hwf
      · exact hdata ▸ hswept.pruned
      · exact hdata ▸ hswept.removed
      · exact hswept.removed_le
      · exact hswept.processed_le
      · rfl
      · intro hmore
        -- A record expired after the rebuild was in the heap before it.
        have hmore₁ : s₁.hasExpiredTop now = true := by
          cases htop : Q.top? s₂.expirations with
          | none => simp [hasExpiredTop, htop] at hmore
          | some record =>
              simp only [hasExpiredTop, htop, decide_eq_true_eq] at hmore
              exact hasExpiredTop_of_mem
                (Multiset.mem_of_le hle (Q.mem_of_top? htop)) hmore
        have hheap : s₂.heapSize ≤ s₁.heapSize := Multiset.card_le_card hle
        have := hswept.shrinks (hswept.more.trans hmore₁)
        omega

end TinyKv.KvStore
