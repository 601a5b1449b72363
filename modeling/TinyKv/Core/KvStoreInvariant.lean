import TinyKv.Core.KvStore
import Mathlib.Data.Multiset.Filter
import Mathlib.Data.Multiset.MapFold
import Mathlib.Data.Multiset.UnionInter

/-!
# The representation invariant of the store

The counters mirror the map, every entry with a deadline has its record in the
heap, and no generation occurs twice in the heap. `Expire` draws generations from
one counter, so a generation of a record is never issued again; the local
increment of `Set` touches only entries without a deadline.
-/

namespace TinyKv.KvStore

open Foundation

variable {Q : ExpirationQueue}

@[simp] theorem ok_bind {α β : Type} (a : α) (f : α → Except Fault β) :
    (Except.ok a >>= f) = f a := rfl

@[simp] theorem pure_eq_ok {α : Type} (a : α) : (pure a : Except Fault α) = .ok a := rfl

theorem check_of {b : Bool} (h : b = true) : check b = .ok () := by
  simp [check, h]

theorem decrement_pos {n : Nat} (h : 0 < n) : decrement n = .ok (n - 1) := by
  obtain ⟨m, rfl⟩ := Nat.exists_eq_succ_of_ne_zero h.ne'
  rfl

theorem subtract_of_le {a b : Nat} (h : b ≤ a) : subtract a b = .ok (a - b) := by
  simp [subtract, h]

/-- The entries without a deadline. -/
def isPersistent (entry : Entry) : Bool := entry.expireAt.isNone

/-- The entries with a deadline. -/
def isExpiring (entry : Entry) : Bool := entry.expireAt.isSome

/-- The representation invariant. -/
structure WellFormed (s : KvStore Q) : Prop where
  persistent : s.persistentKeys = KeyedMap.countWhere isPersistent s.data
  expiring : s.expiringKeys = KeyedMap.countWhere isExpiring s.data
  recorded : ∀ key entry expireAt, s.data.lookup key = some entry →
    entry.expireAt = some expireAt →
      ⟨expireAt, key, entry.generation⟩ ∈ Q.elems s.expirations
  issued : ∀ record ∈ Q.elems s.expirations, record.generation ≤ s.nextExpirationGeneration
  distinct : ((Q.elems s.expirations).map ExpirationRecord.generation).Nodup

theorem wellFormed_empty : WellFormed (empty : KvStore Q) where
  persistent := rfl
  expiring := rfl
  recorded := by simp [empty]
  issued := by simp [empty, Q.elems_make]
  distinct := by simp [empty, Q.elems_make]

/-- The effect of `EraseEntryLocked` when its assertion holds. -/
def erased (s : KvStore Q) (key : Bytes) (entry : Entry) : KvStore Q :=
  { s with
    data := s.data.erase key
    persistentKeys := if isPersistent entry then s.persistentKeys - 1 else s.persistentKeys
    expiringKeys := if isExpiring entry then s.expiringKeys - 1 else s.expiringKeys }

@[simp] theorem erased_data (s : KvStore Q) (key : Bytes) (entry : Entry) :
    (s.erased key entry).data = s.data.erase key := rfl

/-- The counters mirror the map; the part of the invariant an erasure needs. -/
structure Counted (s : KvStore Q) : Prop where
  persistent : s.persistentKeys = KeyedMap.countWhere isPersistent s.data
  expiring : s.expiringKeys = KeyedMap.countWhere isExpiring s.data

theorem WellFormed.counted {s : KvStore Q} (wf : WellFormed s) : Counted s :=
  ⟨wf.persistent, wf.expiring⟩

theorem eraseEntryLocked_eq {s : KvStore Q} (hc : Counted s) {key : Bytes} {entry : Entry}
    (h : s.data.lookup key = some entry) :
    s.eraseEntryLocked key entry = .ok (s.erased key entry) := by
  have hp := KeyedMap.countWhere_erase isPersistent h
  have he := KeyedMap.countWhere_erase isExpiring h
  rw [← hc.persistent] at hp
  rw [← hc.expiring] at he
  cases hexp : entry.expireAt with
  | none =>
      have hpos : 0 < s.persistentKeys := by
        simp only [isPersistent, hexp, Option.isNone_none, if_true] at hp
        omega
      simp [eraseEntryLocked, erased, isPersistent, isExpiring, hexp, check_of, hpos,
        decrement_pos]
  | some t =>
      have hpos : 0 < s.expiringKeys := by
        simp only [isExpiring, hexp, Option.isSome_some, if_true] at he
        omega
      simp [eraseEntryLocked, erased, isPersistent, isExpiring, hexp, check_of, hpos,
        decrement_pos]

theorem Counted.erased {s : KvStore Q} (hc : Counted s) {key : Bytes} {entry : Entry}
    (h : s.data.lookup key = some entry) : Counted (s.erased key entry) := by
  have hp := KeyedMap.countWhere_erase isPersistent h
  have he := KeyedMap.countWhere_erase isExpiring h
  rw [← hc.persistent] at hp
  rw [← hc.expiring] at he
  constructor
  · simp only [KvStore.erased]
    split at hp <;> simp_all
  · simp only [KvStore.erased]
    split at he <;> simp_all

theorem WellFormed.erased {s : KvStore Q} (wf : WellFormed s) {key : Bytes} {entry : Entry}
    (h : s.data.lookup key = some entry) : WellFormed (s.erased key entry) where
  persistent := (wf.counted.erased h).persistent
  expiring := (wf.counted.erased h).expiring
  recorded := by
    intro k e t hlook hexp
    rw [erased_data, KeyedMap.lookup_erase_eq] at hlook
    split at hlook
    · cases hlook
    · exact wf.recorded k e t hlook hexp
  issued := wf.issued
  distinct := wf.distinct

/-! ### The records of the live entries -/

theorem mem_liveRecords {s : KvStore Q} {record : ExpirationRecord} :
    record ∈ s.liveRecords ↔ ∃ entry, s.data.lookup record.key = some entry ∧
      entry.expireAt = some record.expireAt ∧ entry.generation = record.generation := by
  simp only [liveRecords, List.mem_filterMap, recordOf]
  constructor
  · rintro ⟨⟨key, entry⟩, hmem, hrec⟩
    obtain ⟨t, hexp, rfl⟩ := Option.map_eq_some_iff.mp hrec
    exact ⟨entry, KeyedMap.mem_entries_iff_lookup.mp hmem, hexp, rfl⟩
  · rintro ⟨entry, hlook, hexp, hgen⟩
    refine ⟨⟨record.key, entry⟩, KeyedMap.mem_entries_iff_lookup.mpr hlook, ?_⟩
    simp [hexp, hgen]

theorem length_liveRecords (s : KvStore Q) :
    s.liveRecords.length = KeyedMap.countWhere isExpiring s.data := by
  simp only [liveRecords, List.length_filterMap_eq_countP, KeyedMap.countWhere, recordOf,
    isExpiring, Option.isSome_map]

theorem nodup_liveRecords (s : KvStore Q) : s.liveRecords.Nodup := by
  refine List.Nodup.of_map ExpirationRecord.key ?_
  refine List.Nodup.sublist ?_ s.data.keys_nodup
  simp only [liveRecords, AList.keys, List.keys]
  induction s.data.entries with
  | nil => simp
  | cons e rest ih =>
      simp only [List.filterMap_cons, List.map_cons]
      cases hrec : recordOf e.1 e.2 with
      | none => exact ih.cons e.1
      | some record =>
          have hkey : record.key = e.1 := by
            obtain ⟨t, -, rfl⟩ := Option.map_eq_some_iff.mp hrec
            rfl
          simpa [hkey] using ih

theorem WellFormed.liveRecords_le {s : KvStore Q} (wf : WellFormed s) :
    (↑s.liveRecords : Multiset ExpirationRecord) ≤ Q.elems s.expirations := by
  rw [Multiset.le_iff_subset (Multiset.coe_nodup.mpr s.nodup_liveRecords)]
  intro record hmem
  obtain ⟨entry, hlook, hexp, hgen⟩ := mem_liveRecords.mp (Multiset.mem_coe.mp hmem)
  simpa [hgen] using wf.recorded record.key entry record.expireAt hlook hexp

/-- The heap holds at least one record for every expiring key. -/
theorem WellFormed.expiringKeys_le_heapSize {s : KvStore Q} (wf : WellFormed s) :
    s.expiringKeys ≤ s.heapSize := by
  rw [wf.expiring, ← length_liveRecords]
  simpa [heapSize, PriorityQueue.size] using Multiset.card_le_card wf.liveRecords_le

/-! ### What a sweep may do to the map -/

/-- `after` is `before` without some entries whose deadline has passed at `now`. -/
def Pruned (now : TimePoint) (before after : KeyedMap Bytes Entry) : Prop :=
  ∀ key, after.lookup key = before.lookup key ∨
    (after.lookup key = none ∧ ∃ entry t, before.lookup key = some entry ∧
      entry.expireAt = some t ∧ t ≤ now)

theorem Pruned.refl (now : TimePoint) (data : KeyedMap Bytes Entry) : Pruned now data data :=
  fun _ => .inl rfl

theorem Pruned.trans {now : TimePoint} {a b c : KeyedMap Bytes Entry}
    (hab : Pruned now a b) (hbc : Pruned now b c) : Pruned now a c := by
  intro key
  obtain hcb | ⟨hc, entry, t, hb, hexp, ht⟩ := hbc key
  · rw [hcb]
    exact hab key
  · obtain hba | ⟨hb', -⟩ := hab key
    · exact .inr ⟨hc, entry, t, hba ▸ hb, hexp, ht⟩
    · rw [hb'] at hb
      cases hb

theorem Pruned.erase {now t : TimePoint} {data : KeyedMap Bytes Entry} {key : Bytes}
    {entry : Entry} (h : data.lookup key = some entry) (hexp : entry.expireAt = some t)
    (ht : t ≤ now) : Pruned now data (data.erase key) := by
  intro k
  rw [KeyedMap.lookup_erase_eq]
  split
  · next heq =>
    subst heq
    exact .inr ⟨rfl, entry, t, h, hexp, ht⟩
  · exact .inl rfl

end TinyKv.KvStore
