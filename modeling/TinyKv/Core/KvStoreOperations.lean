import TinyKv.Core.KvStoreInvariant

/-!
# What each keyed operation does

Every operation on a well-formed store succeeds, keeps the invariant, and is
described by the live entry of its key: the stored entry unless its deadline has
passed. A lazy deletion shows up only as a `Pruned` map.
-/

namespace TinyKv.KvStore

open Foundation

variable {Q : ExpirationQueue}

/-- The entry a read at `now` may answer from. -/
def live? (data : KeyedMap Bytes Entry) (now : TimePoint) (key : Bytes) : Option Entry :=
  (data.lookup key).filter fun entry => !isExpired entry now

theorem isExpired_iff {entry : Entry} {now : TimePoint} :
    isExpired entry now = true ↔ ∃ t, entry.expireAt = some t ∧ t ≤ now := by
  cases h : entry.expireAt <;> simp [isExpired, h]

theorem live?_missing {data : KeyedMap Bytes Entry} {key : Bytes} (now : TimePoint)
    (h : data.lookup key = none) : live? data now key = none := by
  simp [live?, h]

theorem live?_expired {data : KeyedMap Bytes Entry} {key : Bytes} {now : TimePoint}
    {entry : Entry} (h : data.lookup key = some entry) (hexp : isExpired entry now = true) :
    live? data now key = none := by
  simp [live?, h, hexp]

theorem live?_live {data : KeyedMap Bytes Entry} {key : Bytes} {now : TimePoint}
    {entry : Entry} (h : data.lookup key = some entry) (hlive : isExpired entry now = false) :
    live? data now key = some entry := by
  simp [live?, h, hlive]

/-- A key is missing, held by an expired entry, or live. -/
theorem lookup_cases (data : KeyedMap Bytes Entry) (now : TimePoint) (key : Bytes) :
    data.lookup key = none ∨
      (∃ entry, data.lookup key = some entry ∧ isExpired entry now = true) ∨
      ∃ entry, data.lookup key = some entry ∧ isExpired entry now = false := by
  cases h : data.lookup key with
  | none => exact .inl rfl
  | some entry =>
      cases hexp : isExpired entry now with
      | true => exact .inr (.inl ⟨entry, rfl, hexp⟩)
      | false => exact .inr (.inr ⟨entry, rfl, hexp⟩)

theorem pruned_erase_of_isExpired {data : KeyedMap Bytes Entry} {key : Bytes}
    {now : TimePoint} {entry : Entry} (h : data.lookup key = some entry)
    (hexp : isExpired entry now = true) : Pruned now data (data.erase key) := by
  obtain ⟨t, ht, hle⟩ := isExpired_iff.mp hexp
  exact Pruned.erase h ht hle

theorem pruned_erase_of_live?_none {data : KeyedMap Bytes Entry} {key : Bytes}
    {now : TimePoint} (h : live? data now key = none) :
    Pruned now data (data.erase key) := by
  obtain hl | ⟨entry, hl, hexp⟩ | ⟨entry, hl, hlive⟩ := lookup_cases data now key
  · rw [KeyedMap.erase_of_lookup_none hl]
    exact Pruned.refl now data
  · exact pruned_erase_of_isExpired hl hexp
  · rw [live?_live hl hlive] at h
    cases h

theorem get_spec {s : KvStore Q} (wf : WellFormed s) (now : TimePoint) (key : Bytes) :
    ∃ s', s.get now key = .ok ((live? s.data now key).map Entry.value, s') ∧
      WellFormed s' ∧ Pruned now s.data s'.data := by
  obtain h | ⟨entry, h, hexp⟩ | ⟨entry, h, hlive⟩ := lookup_cases s.data now key
  · exact ⟨s, by simp [get, h, live?_missing now h], wf, Pruned.refl now _⟩
  · refine ⟨s.erased key entry, ?_, wf.erased h, pruned_erase_of_isExpired h hexp⟩
    simp [get, h, hexp, eraseEntryLocked_eq wf.counted h, live?_expired h hexp]
  · exact ⟨s, by simp [get, h, hlive, live?_live h hlive], wf, Pruned.refl now _⟩

theorem del_spec {s : KvStore Q} (wf : WellFormed s) (now : TimePoint) (key : Bytes) :
    ∃ s', s.del now key = .ok ((live? s.data now key).isSome, s') ∧
      WellFormed s' ∧ s'.data = s.data.erase key := by
  obtain h | ⟨entry, h, hexp⟩ | ⟨entry, h, hlive⟩ := lookup_cases s.data now key
  · refine ⟨s, ?_, wf, (KeyedMap.erase_of_lookup_none h).symm⟩
    simp [del, h, live?_missing now h]
  · refine ⟨s.erased key entry, ?_, wf.erased h, rfl⟩
    simp [del, h, hexp, eraseEntryLocked_eq wf.counted h, live?_expired h hexp]
  · refine ⟨s.erased key entry, ?_, wf.erased h, rfl⟩
    simp [del, h, hlive, eraseEntryLocked_eq wf.counted h, live?_live h hlive]

/-- What `Ttl` reports for a live entry. -/
def remainingSeconds (now : TimePoint) (entry : Entry) : Int32 :=
  match entry.expireAt with
  | none => -1
  | some expireAt => Int32.ofInt (ceilSeconds (expireAt - now))

theorem ttl_spec {s : KvStore Q} (wf : WellFormed s) (now : TimePoint) (key : Bytes) :
    ∃ s', s.ttl now key =
        .ok (((live? s.data now key).map (remainingSeconds now)).getD (-2), s') ∧
      WellFormed s' ∧ Pruned now s.data s'.data := by
  obtain h | ⟨entry, h, hexp⟩ | ⟨entry, h, hlive⟩ := lookup_cases s.data now key
  · exact ⟨s, by simp [ttl, h, live?_missing now h], wf, Pruned.refl now _⟩
  · refine ⟨s.erased key entry, ?_, wf.erased h, pruned_erase_of_isExpired h hexp⟩
    simp [ttl, h, hexp, eraseEntryLocked_eq wf.counted h, live?_expired h hexp]
  · refine ⟨s, ?_, wf, Pruned.refl now _⟩
    cases hat : entry.expireAt <;>
      simp [ttl, h, hlive, live?_live h hlive, remainingSeconds, hat]

/-! ### Insertions -/

/-- Replacing an entry by one without a deadline needs no record. -/
theorem recorded_insert_persistent {s : KvStore Q} (wf : WellFormed s) (key value : Bytes)
    (generation : Nat) :
    ∀ k entry t,
      (s.data.insert key { value, expireAt := none, generation }).lookup k = some entry →
      entry.expireAt = some t → ⟨t, k, entry.generation⟩ ∈ Q.elems s.expirations := by
  intro k entry t hlook hexp
  rw [KeyedMap.lookup_insert_eq] at hlook
  split at hlook
  · cases hlook
    cases hexp
  · exact wf.recorded k entry t hlook hexp

theorem set_spec {s : KvStore Q} (wf : WellFormed s) (key value : Bytes) :
    ∃ s' generation, s.set key value = .ok s' ∧ WellFormed s' ∧
      s'.data = s.data.insert key { value, expireAt := none, generation } := by
  cases h : s.data.lookup key with
  | none =>
      refine ⟨_, 0, by simp [set, h]; rfl, ?_, rfl⟩
      constructor
      · simpa [isPersistent, wf.persistent] using
          (KeyedMap.countWhere_insert_new isPersistent { value } h).symm
      · simpa [isExpiring, wf.expiring] using
          (KeyedMap.countWhere_insert_new isExpiring { value } h).symm
      · exact recorded_insert_persistent wf key value 0
      · exact wf.issued
      · exact wf.distinct
  | some entry =>
      let updated : Entry := { value, expireAt := none, generation := entry.generation + 1 }
      have hp := KeyedMap.countWhere_insert_over isPersistent updated h
      have he := KeyedMap.countWhere_insert_over isExpiring updated h
      rw [← wf.persistent] at hp
      rw [← wf.expiring] at he
      have hnew : isPersistent updated = true := rfl
      have hnew' : isExpiring updated = false := rfl
      simp only [hnew, hnew', Bool.false_eq_true, if_false, if_true, Nat.add_zero] at hp he
      cases hat : entry.expireAt with
      | none =>
          simp only [isPersistent, isExpiring, hat, Option.isNone_none, Option.isSome_none,
            Bool.false_eq_true, if_false, if_true, Nat.add_zero] at hp he
          refine ⟨_, entry.generation + 1, by simp [set, h, hat]; rfl, ?_, rfl⟩
          exact ⟨(Nat.add_right_cancel hp).symm, he.symm,
            recorded_insert_persistent wf key value _, wf.issued, wf.distinct⟩
      | some t =>
          simp only [isPersistent, isExpiring, hat, Option.isNone_some, Option.isSome_some,
            Bool.false_eq_true, if_false, if_true, Nat.add_zero] at hp he
          have hpos : 0 < s.expiringKeys := by omega
          refine ⟨_, entry.generation + 1, by simp [set, h, hat, decrement_pos hpos]; rfl, ?_, rfl⟩
          exact ⟨hp.symm, (Nat.eq_sub_of_add_eq he).symm,
            recorded_insert_persistent wf key value _, wf.issued, wf.distinct⟩

/-- The entry after a successful `Expire`. -/
def expiring (s : KvStore Q) (now : TimePoint) (seconds : Int32) (entry : Entry) : Entry :=
  { entry with
    expireAt := some (now + seconds.toInt * nanosPerSecond)
    generation := s.nextExpirationGeneration + 1 }

/-- The store after a successful `Expire`. -/
def expired (s : KvStore Q) (now : TimePoint) (key : Bytes) (seconds : Int32)
    (entry : Entry) : KvStore Q :=
  { s with
    persistentKeys := if isPersistent entry then s.persistentKeys - 1 else s.persistentKeys
    expiringKeys := if isPersistent entry then s.expiringKeys + 1 else s.expiringKeys
    data := s.data.insert key (s.expiring now seconds entry)
    nextExpirationGeneration := s.nextExpirationGeneration + 1
    expirations := Q.push s.expirations
      ⟨now + seconds.toInt * nanosPerSecond, key, s.nextExpirationGeneration + 1⟩ }

/-- A generation drawn from the counter is new to the heap, so the pushed record
keeps the generations distinct. -/
theorem WellFormed.expired {s : KvStore Q} (wf : WellFormed s) (now : TimePoint) {key : Bytes}
    (seconds : Int32) {entry : Entry} (h : s.data.lookup key = some entry) :
    WellFormed (s.expired now key seconds entry) := by
  have hp := KeyedMap.countWhere_insert_over isPersistent (s.expiring now seconds entry) h
  have he := KeyedMap.countWhere_insert_over isExpiring (s.expiring now seconds entry) h
  rw [← wf.persistent] at hp
  rw [← wf.expiring] at he
  have hnew : isPersistent (s.expiring now seconds entry) = false := rfl
  have hnew' : isExpiring (s.expiring now seconds entry) = true := rfl
  have hflip : isExpiring entry = !isPersistent entry := by
    simp [isExpiring, isPersistent]
  simp only [hnew, hnew', hflip, Bool.false_eq_true, if_false, if_true] at hp he
  constructor
  · simp only [KvStore.expired]
    cases hat : isPersistent entry <;> simp [hat] at hp ⊢ <;> omega
  · simp only [KvStore.expired]
    cases hat : isPersistent entry <;> simp [hat] at he ⊢ <;> omega
  · intro k e t hlook hexp
    simp only [KvStore.expired, Q.elems_push, Multiset.mem_cons] at hlook ⊢
    rw [KeyedMap.lookup_insert_eq] at hlook
    split at hlook
    · next heq =>
      subst heq
      cases hlook
      simp only [KvStore.expiring, Option.some.injEq] at hexp
      exact .inl (by simp [hexp, KvStore.expiring])
    · exact .inr (wf.recorded k e t hlook hexp)
  · intro record hmem
    simp only [KvStore.expired, Q.elems_push, Multiset.mem_cons] at hmem ⊢
    obtain rfl | hmem := hmem
    · simp
    · exact (wf.issued record hmem).trans (Nat.le_succ _)
  · simp only [KvStore.expired, Q.elems_push, Multiset.map_cons, Multiset.nodup_cons]
    refine ⟨?_, wf.distinct⟩
    intro hmem
    obtain ⟨record, hrec, hgen⟩ := Multiset.mem_map.mp hmem
    have := wf.issued record hrec
    omega

theorem expire_live {s : KvStore Q} (wf : WellFormed s) {now : TimePoint} {key : Bytes}
    {seconds : Int32} {entry : Entry} (hpos : 0 < seconds.toInt)
    (h : live? s.data now key = some entry) :
    s.expire now key seconds = .ok (true, s.expired now key seconds entry) := by
  obtain hl | ⟨e, hl, hexp⟩ | ⟨e, hl, hlive⟩ := lookup_cases s.data now key
  · rw [live?_missing now hl] at h
    cases h
  · rw [live?_expired hl hexp] at h
    cases h
  · rw [live?_live hl hlive] at h
    cases h
    have hp := KeyedMap.countWhere_erase isPersistent hl
    rw [← wf.persistent] at hp
    cases hat : entry.expireAt with
    | none =>
        have hkeys : 0 < s.persistentKeys := by
          simp only [isPersistent, hat, Option.isNone_none, if_true] at hp
          omega
        simp [expire, hl, hlive, hat, hpos, check_of, hkeys, decrement_pos, KvStore.expired,
          KvStore.expiring, isPersistent]
    | some t =>
        simp [expire, hl, hlive, hat, hpos, KvStore.expired, KvStore.expiring, isPersistent]

theorem expire_refused {s : KvStore Q} (wf : WellFormed s) {now : TimePoint} {key : Bytes}
    {seconds : Int32} (h : seconds.toInt ≤ 0 ∨ live? s.data now key = none) :
    ∃ s', s.expire now key seconds = .ok (false, s') ∧ WellFormed s' ∧
      Pruned now s.data s'.data := by
  by_cases hsec : seconds.toInt ≤ 0
  · exact ⟨s, by simp [expire, hsec], wf, Pruned.refl now _⟩
  · have hnone := h.resolve_left hsec
    obtain hl | ⟨e, hl, hexp⟩ | ⟨e, hl, hlive⟩ := lookup_cases s.data now key
    · exact ⟨s, by simp [expire, hl], wf, Pruned.refl now _⟩
    · refine ⟨s.erased key e, ?_, wf.erased hl, pruned_erase_of_isExpired hl hexp⟩
      simp [expire, hsec, hl, hexp, eraseEntryLocked_eq wf.counted hl]
    · rw [live?_live hl hlive] at hnone
      cases hnone

end TinyKv.KvStore
