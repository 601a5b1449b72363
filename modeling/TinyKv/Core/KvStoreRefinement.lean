import TinyKv.Core.KvStoreRuns
import TinyKv.Core.TtlMap
import Mathlib.Data.Rat.Floor

/-!
# The store refines the map with deadlines

The reference has no heap, no generations, no lazy deletion and no sweeper. The
store represents it up to entries whose deadline has passed: those may already be
gone. With non-decreasing clock readings a passed deadline stays passed, so no
answer depends on when an entry was removed.
-/

namespace TinyKv.KvStore

open Foundation

variable {Q : ExpirationQueue}

/-- The reference map of the store. -/
abbrev Reference := TtlMap Bytes Bytes TimePoint

/-- What a caller of the store can compare with the reference. -/
inductive Answer where
  | done
  | value (found : Option Bytes)
  | flag (success : Bool)
  | seconds (remaining : Int)
deriving DecidableEq

/-- The answer in a reply; statistics and sweep results have no counterpart. -/
def Reply.answer? : Reply → Option Answer
  | .done => some .done
  | .value found => some (.value found)
  | .flag success => some (.flag success)
  | .seconds remaining => some (.seconds remaining.toInt)
  | .stats _ => none
  | .swept _ => none

/-- The remaining seconds of a key in the reference, rounded up. -/
def Reference.ttl (ref : Reference) (now : TimePoint) (key : Bytes) : Int :=
  match ref.deadline now key with
  | none => -2
  | some none => -1
  | some (some d) => ⌈((d - now : Int) / (1000000000 : Nat) : ℚ)⌉

/-- One operation on the reference. -/
def Reference.perform (ref : Reference) (now : TimePoint) : Op → Option Answer × Reference
  | .set key value => (some .done, ref.set key value)
  | .get key => (some (.value (ref.get now key)), ref)
  | .del key =>
      let (success, ref) := ref.del now key
      (some (.flag success), ref)
  | .expire key seconds =>
      if 0 < seconds.toInt then
        let (success, ref) := ref.expireAt now key (now + seconds.toInt * 1000000000)
        (some (.flag success), ref)
      else
        (some (.flag false), ref)
  | .ttl key => (some (.seconds (ref.ttl now key)), ref)
  | .stats => (none, ref)
  | .sweepExpired _ => (none, ref)

/-- A run of the reference. -/
def Reference.performAll (ref : Reference) : List (TimePoint × Op) → List (Option Answer)
  | [] => []
  | (now, op) :: rest =>
      let (answer, ref) := ref.perform now op
      answer :: ref.performAll rest

/-- The value and the deadline of an entry. -/
def content (entry : Entry) : Bytes × Option TimePoint := (entry.value, entry.expireAt)

/-- The map represents the reference at clock readings from `now` on: entries agree
except that an entry past its deadline may be gone, and no deadline lies further
ahead than the largest `EXPIRE` argument allows. -/
structure Represents (now : TimePoint) (data : KeyedMap Bytes Entry) (ref : Reference) :
    Prop where
  entries : ∀ key, (data.lookup key).map content = ref key ∨
    (data.lookup key = none ∧ ∃ value d, ref key = some (value, some d) ∧ d ≤ now)
  bounded : ∀ key value d, ref key = some (value, some d) →
    d ≤ now + (2 ^ 31 - 1) * nanosPerSecond

theorem Represents.empty (now : TimePoint) : Represents now ∅ TtlMap.empty where
  entries _ := .inl (by simp [TtlMap.empty])
  bounded _ _ _ h := by simp [TtlMap.empty] at h

theorem Represents.later {t now : TimePoint} {data : KeyedMap Bytes Entry} {ref : Reference}
    (h : Represents t data ref) (hle : t ≤ now) : Represents now data ref where
  entries key := (h.entries key).imp id fun ⟨hnone, value, d, href, hd⟩ =>
    ⟨hnone, value, d, href, hd.trans hle⟩
  bounded key value d href := (h.bounded key value d href).trans (by
    exact Int.add_le_add_right hle _)

/-- Removing expired entries is invisible in the reference. -/
theorem Represents.pruned {now : TimePoint} {data data' : KeyedMap Bytes Entry}
    {ref : Reference} (h : Represents now data ref) (hp : Pruned now data data') :
    Represents now data' ref where
  entries key := by
    obtain heq | ⟨hnone, entry, t, hlook, hexp, ht⟩ := hp key
    · rw [heq]
      exact h.entries key
    · obtain href | ⟨hnone', -⟩ := h.entries key
      · rw [hlook] at href
        exact .inr ⟨hnone, entry.value, t, by simp [← href, content, hexp], ht⟩
      · rw [hnone'] at hlook
        cases hlook
  bounded := h.bounded

/-- The live entries of the map and of the reference agree. -/
theorem Represents.live_eq {now : TimePoint} {data : KeyedMap Bytes Entry} {ref : Reference}
    (h : Represents now data ref) (key : Bytes) :
    (live? data now key).map content = ref.live now key := by
  obtain href | ⟨hnone, value, d, href, hd⟩ := h.entries key
  · cases hlook : data.lookup key with
    | none =>
        rw [hlook] at href
        simp [live?, TtlMap.live, hlook, ← href]
    | some entry =>
        rw [hlook] at href
        have hahead : decide (TtlMap.Ahead now (content entry).2) = !isExpired entry now := by
          cases hexp : entry.expireAt <;>
            simp [TtlMap.Ahead, content, isExpired, hexp, ← decide_not]
        simp only [Option.map_some] at href
        simp only [live?, TtlMap.live, hlook, ← href, Option.filter_some, hahead]
        cases isExpired entry now <;> simp
  · rw [TtlMap.live_eq_none_of_le href hd]
    simp [live?, hnone]

/-! ### One lemma per operation -/

theorem Represents.set {now : TimePoint} {data : KeyedMap Bytes Entry} {ref : Reference}
    (h : Represents now data ref) (key value : Bytes) (generation : Nat) :
    Represents now (data.insert key { value, expireAt := none, generation })
      (ref.set key value) where
  entries k := by
    rw [KeyedMap.lookup_insert_eq]
    by_cases hk : k = key
    · exact .inl (by simp [hk, TtlMap.set, content])
    · simpa [hk, TtlMap.set] using h.entries k
  bounded k v d href := by
    by_cases hk : k = key
    · simp [hk, TtlMap.set] at href
    · exact h.bounded k v d (by simpa [hk, TtlMap.set] using href)

theorem Represents.del {now : TimePoint} {data : KeyedMap Bytes Entry} {ref : Reference}
    (h : Represents now data ref) (key : Bytes) :
    (live? data now key).isSome = (ref.del now key).1 ∧
      Represents now (data.erase key) (ref.del now key).2 := by
  have href := h.live_eq key
  cases hlive : live? data now key with
  | none =>
      rw [hlive, Option.map_none] at href
      have heq : ref.del now key = (false, ref) := by simp [TtlMap.del, ← href]
      exact ⟨by simp [heq], by simpa [heq] using h.pruned (pruned_erase_of_live?_none hlive)⟩
  | some entry =>
      rw [hlive, Option.map_some] at href
      have heq : ref.del now key = (true, ref.write key none) := by simp [TtlMap.del, ← href]
      rw [heq]
      refine ⟨rfl, ?_, ?_⟩
      · intro k
        rw [KeyedMap.lookup_erase_eq]
        by_cases hk : k = key
        · exact .inl (by simp [hk])
        · simpa [hk] using h.entries k
      · intro k v d hd
        by_cases hk : k = key
        · simp [hk] at hd
        · exact h.bounded k v d (by simpa [hk] using hd)

theorem Represents.expire {now : TimePoint} {s : KvStore Q} {ref : Reference}
    (h : Represents now s.data ref) {key : Bytes} (seconds : Int32) {entry : Entry}
    (hlive : live? s.data now key = some entry) :
    ref.expireAt now key (now + seconds.toInt * 1000000000) =
        (true, ref.write key
          (some (entry.value, some (now + seconds.toInt * 1000000000)))) ∧
      Represents now (s.expired now key seconds entry).data
        (ref.expireAt now key (now + seconds.toInt * 1000000000)).2 := by
  have href := h.live_eq key
  rw [hlive, Option.map_some] at href
  have heq : ref.expireAt now key (now + seconds.toInt * 1000000000) =
      (true, ref.write key
        (some (entry.value, some (now + seconds.toInt * 1000000000)))) := by
    simp [TtlMap.expireAt, ← href, content]
  refine ⟨heq, ?_⟩
  rw [heq]
  constructor
  · intro k
    simp only [expired]
    rw [KeyedMap.lookup_insert_eq]
    by_cases hk : k = key
    · exact .inl (by simp [hk, expiring, content, nanosPerSecond])
    · simpa [hk] using h.entries k
  · intro k v d hd
    by_cases hk : k = key
    · subst hk
      simp only [TtlMap.write_self, Option.some.injEq, Prod.mk.injEq] at hd
      have hlt := Int32.toInt_lt seconds
      rw [← hd.2]
      simp only [nanosPerSecond]
      have : seconds.toInt ≤ 2 ^ 31 - 1 := by omega
      nlinarith
    · exact h.bounded k v d (by simpa [hk] using hd)

/-- The narrowing cast of `Ttl` loses nothing for a deadline within reach. -/
theorem remainingSeconds_toInt {now d : Int} {value : Bytes} {generation : Nat}
    (hahead : now < d) (hle : d ≤ now + (2 ^ 31 - 1) * nanosPerSecond) :
    (remainingSeconds now { value, expireAt := some d, generation }).toInt =
      ⌈((d - now : Int) / (1000000000 : Nat) : ℚ)⌉ := by
  rw [Rat.ceil_intCast_div_natCast]
  simp only [remainingSeconds, ceilSeconds, nanosPerSecond] at hle ⊢
  apply Int32.toInt_ofInt_of_le
  · push_cast
    omega
  · push_cast
    omega

theorem Represents.ttl_eq {now : TimePoint} {data : KeyedMap Bytes Entry} {ref : Reference}
    (h : Represents now data ref) (key : Bytes) :
    (((live? data now key).map (remainingSeconds now)).getD (-2)).toInt = ref.ttl now key := by
  have href := h.live_eq key
  cases hlive : live? data now key with
  | none =>
      rw [hlive, Option.map_none] at href
      simp [Reference.ttl, TtlMap.deadline, ← href]
  | some entry =>
      rw [hlive, Option.map_some] at href
      obtain ⟨value, expireAt, generation⟩ := entry
      cases expireAt with
      | none => simp [Reference.ttl, TtlMap.deadline, ← href, content, remainingSeconds]
      | some d =>
          obtain ⟨hkey, hahead⟩ := Option.filter_eq_some_iff.mp href.symm
          have hahead : now < d := by simpa [TtlMap.Ahead, content] using hahead
          simp only [Option.map_some, Option.getD_some, Reference.ttl, TtlMap.deadline, ← href,
            content]
          exact remainingSeconds_toInt hahead (h.bounded key value d hkey)

/-- One operation of the store answers like the reference and keeps representing it. -/
theorem perform_refines {s : KvStore Q} {ref : Reference} (wf : WellFormed s)
    {now : TimePoint} (h : Represents now s.data ref) (op : Op) :
    ∃ reply s', s.perform now op = .ok (reply, s') ∧ WellFormed s' ∧
      reply.answer? = (ref.perform now op).1 ∧
      Represents now s'.data (ref.perform now op).2 := by
  cases op with
  | set key value =>
      obtain ⟨s', generation, hrun, hwf, hdata⟩ := set_spec wf key value
      exact ⟨.done, s', by simp [perform, hrun], hwf, rfl, hdata ▸ h.set key value generation⟩
  | get key =>
      obtain ⟨s', hrun, hwf, hp⟩ := get_spec wf now key
      refine ⟨_, s', by simp [perform, hrun]; rfl, hwf, ?_, h.pruned hp⟩
      simp only [Reply.answer?, Reference.perform, TtlMap.get, ← h.live_eq key, Option.map_map]
      rfl
  | del key =>
      obtain ⟨s', hrun, hwf, hdata⟩ := del_spec wf now key
      refine ⟨_, s', by simp [perform, hrun]; rfl, hwf, ?_, hdata ▸ (h.del key).2⟩
      simp only [Reply.answer?, Reference.perform, (h.del key).1]
  | expire key seconds =>
      by_cases hrefused : seconds.toInt ≤ 0 ∨ live? s.data now key = none
      · obtain ⟨s', hrun, hwf, hp⟩ := expire_refused wf hrefused
        have href : ref.perform now (.expire key seconds) = (some (.flag false), ref) := by
          obtain hneg | hnone := hrefused
          · simp [Reference.perform, not_lt.mpr hneg]
          · have hdead := h.live_eq key
            rw [hnone, Option.map_none] at hdead
            simp [Reference.perform, TtlMap.expireAt, ← hdead]
        exact ⟨.flag false, s', by simp [perform, hrun], hwf, by simp [href, Reply.answer?],
          by simpa [href] using h.pruned hp⟩
      · obtain ⟨hpos, hlive⟩ := not_or.mp hrefused
        obtain ⟨entry, hentry⟩ := Option.ne_none_iff_exists'.mp hlive
        have hlook : s.data.lookup key = some entry := (Option.filter_eq_some_iff.mp hentry).1
        obtain ⟨heq, hrep⟩ := h.expire seconds hentry
        refine ⟨.flag true, _, by simp [perform, expire_live wf (not_le.mp hpos) hentry],
          wf.expired now seconds hlook, ?_, ?_⟩
        · simp [Reference.perform, not_le.mp hpos, heq, Reply.answer?]
        · simpa [Reference.perform, not_le.mp hpos] using hrep
  | ttl key =>
      obtain ⟨s', hrun, hwf, hp⟩ := ttl_spec wf now key
      refine ⟨_, s', by simp [perform, hrun]; rfl, hwf, ?_, h.pruned hp⟩
      simp only [Reply.answer?, Reference.perform, h.ttl_eq key]
  | stats => exact ⟨_, s, rfl, wf, rfl, h⟩
  | sweepExpired maxRecordsToProcess =>
      obtain ⟨result, s', hrun, hswept⟩ := sweepExpired_spec wf now maxRecordsToProcess
      exact ⟨.swept result, s', by simp [perform, hrun], hswept.wellFormed, rfl,
        h.pruned hswept.pruned⟩

theorem performAll_refines (ops : List (TimePoint × Op)) {s : KvStore Q} {ref : Reference}
    {t : TimePoint} (wf : WellFormed s) (h : Represents t s.data ref)
    (hclock : (t :: ops.map Prod.fst).Pairwise (· ≤ ·)) :
    ∃ replies s', s.performAll ops = .ok (replies, s') ∧
      replies.map Reply.answer? = ref.performAll ops := by
  induction ops generalizing s ref t with
  | nil => exact ⟨[], s, rfl, rfl⟩
  | cons op rest ih =>
      obtain ⟨now, op⟩ := op
      simp only [List.map_cons, List.pairwise_cons] at hclock
      have hnow : t ≤ now := hclock.1 now (List.mem_cons_self ..)
      obtain ⟨reply, s₁, hop, hwf, hans, hrep⟩ := perform_refines wf (h.later hnow) op
      obtain ⟨replies, s₂, hrest, hall⟩ := ih hwf hrep (List.pairwise_cons.mpr hclock.2)
      exact ⟨reply :: replies, s₂, by simp [performAll, hop, hrest],
        by simp [Reference.performAll, hans, hall]⟩

/-- Every run from the empty store with non-decreasing clock readings answers
exactly like the reference map, wherever sweeps, lazy deletions and heap rebuilds
fall in it. -/
theorem performAll_refines_ttlMap (Q : ExpirationQueue) (ops : List (TimePoint × Op))
    (hclock : (ops.map Prod.fst).Pairwise (· ≤ ·)) :
    ∃ replies s, (empty : KvStore Q).performAll ops = .ok (replies, s) ∧
      replies.map Reply.answer? = Reference.performAll TtlMap.empty ops := by
  cases ops with
  | nil => exact ⟨[], empty, rfl, rfl⟩
  | cons op rest =>
      refine performAll_refines (op :: rest) (t := op.1) wellFormed_empty
        (Represents.empty op.1) ?_
      simpa using hclock

/-- A key read before and after its deadline, with a sweep at the deadline. -/
theorem performAll_refines_ttlMap_expiry :
    let ops : List (TimePoint × Op) :=
      [(0, .set (ascii "k") (ascii "v")), (0, .expire (ascii "k") 1),
        (500000000, .get (ascii "k")), (1000000000, .sweepExpired 1),
        (1000000000, .get (ascii "k"))]
    ∃ replies s, (empty : KvStore sortedExpirations).performAll ops = .ok (replies, s) ∧
      replies.map Reply.answer? =
        [some .done, some (.flag true), some (.value (some (ascii "v"))), none,
          some (.value none)] :=
  performAll_refines_ttlMap sortedExpirations _ (by decide)

end TinyKv.KvStore
