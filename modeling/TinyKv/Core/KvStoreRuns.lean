import TinyKv.Core.KvStoreSweep

/-!
# Runs of the store

No run of the public operations faults, whatever the clock readings are, and every
state it reaches is well formed. The sweeper's pass repeats `SweepExpired` until no
expired record is left on top; each unfinished call removes a full budget of
records, which bounds the number of calls.
-/

namespace TinyKv.KvStore

open Foundation

variable {Q : ExpirationQueue}

theorem perform_wellFormed {s : KvStore Q} (wf : WellFormed s) (now : TimePoint) (op : Op) :
    ∃ reply s', s.perform now op = .ok (reply, s') ∧ WellFormed s' := by
  cases op with
  | set key value =>
      obtain ⟨s', -, hrun, hwf, -⟩ := set_spec wf key value
      exact ⟨.done, s', by simp [perform, hrun], hwf⟩
  | get key =>
      obtain ⟨s', hrun, hwf, -⟩ := get_spec wf now key
      exact ⟨_, s', by simp [perform, hrun]; rfl, hwf⟩
  | del key =>
      obtain ⟨s', hrun, hwf, -⟩ := del_spec wf now key
      exact ⟨_, s', by simp [perform, hrun]; rfl, hwf⟩
  | expire key seconds =>
      by_cases hrefused : seconds.toInt ≤ 0 ∨ live? s.data now key = none
      · obtain ⟨s', hrun, hwf, -⟩ := expire_refused wf hrefused
        exact ⟨.flag false, s', by simp [perform, hrun], hwf⟩
      · obtain ⟨hpos, hlive⟩ := not_or.mp hrefused
        obtain ⟨entry, hentry⟩ := Option.ne_none_iff_exists'.mp hlive
        have hlook : s.data.lookup key = some entry := (Option.filter_eq_some_iff.mp hentry).1
        exact ⟨.flag true, _, by simp [perform, expire_live wf (not_le.mp hpos) hentry],
          wf.expired now seconds hlook⟩
  | ttl key =>
      obtain ⟨s', hrun, hwf, -⟩ := ttl_spec wf now key
      exact ⟨_, s', by simp [perform, hrun]; rfl, hwf⟩
  | stats => exact ⟨_, s, rfl, wf⟩
  | sweepExpired maxRecordsToProcess =>
      obtain ⟨result, s', hrun, hswept⟩ := sweepExpired_spec wf now maxRecordsToProcess
      exact ⟨.swept result, s', by simp [perform, hrun], hswept.wellFormed⟩

theorem performAll_wellFormed (ops : List (TimePoint × Op)) {s : KvStore Q}
    (wf : WellFormed s) :
    ∃ replies s', s.performAll ops = .ok (replies, s') ∧ WellFormed s' := by
  induction ops generalizing s with
  | nil => exact ⟨[], s, rfl, wf⟩
  | cons op rest ih =>
      obtain ⟨reply, s₁, hop, hwf₁⟩ := perform_wellFormed wf op.1 op.2
      obtain ⟨replies, s₂, hrest, hwf₂⟩ := ih hwf₁
      exact ⟨reply :: replies, s₂, by simp [performAll, hop, hrest], hwf₂⟩

/-- A store some run from the empty store ends in. -/
def Reachable (s : KvStore Q) : Prop :=
  ∃ ops replies, (empty : KvStore Q).performAll ops = .ok (replies, s)

theorem Reachable.wellFormed {s : KvStore Q} (h : Reachable s) : WellFormed s := by
  obtain ⟨ops, replies, hrun⟩ := h
  obtain ⟨replies', s', hrun', hwf⟩ := performAll_wellFormed ops (wellFormed_empty (Q := Q))
  rw [hrun] at hrun'
  cases hrun'
  exact hwf

/-- The store in which a run from the empty store ends. -/
def finalStore (ops : List (TimePoint × Op)) : KvStore Q :=
  match (empty : KvStore Q).performAll ops with
  | .ok (_, s) => s
  | .error _ => empty

theorem reachable_finalStore (ops : List (TimePoint × Op)) :
    Reachable (finalStore ops : KvStore Q) := by
  obtain ⟨replies, s, hrun, -⟩ := performAll_wellFormed ops (wellFormed_empty (Q := Q))
  exact ⟨ops, replies, by simp [finalStore, hrun]⟩

/-! ### One record per expiring entry -/

theorem WellFormed.count_record {s : KvStore Q} (wf : WellFormed s) {key : Bytes}
    {entry : Entry} {t : TimePoint} (hlook : s.data.lookup key = some entry)
    (hexp : entry.expireAt = some t) :
    (Q.elems s.expirations).count ⟨t, key, entry.generation⟩ = 1 :=
  Multiset.count_eq_one_of_mem (Multiset.Nodup.of_map _ wf.distinct)
    (wf.recorded key entry t hlook hexp)

theorem WellFormed.card_generation_le {s : KvStore Q} (wf : WellFormed s) (key : Bytes)
    (generation : Nat) :
    ((Q.elems s.expirations).filter
      fun r => r.key = key ∧ r.generation = generation).card ≤ 1 := by
  have hle : ((Q.elems s.expirations).filter
      fun r => r.key = key ∧ r.generation = generation) ≤
        (Q.elems s.expirations).filter fun r => r.generation = generation :=
    Multiset.monotone_filter_right _ fun _ h => h.2
  have hcount := Multiset.nodup_iff_count_le_one.mp wf.distinct generation
  rw [Multiset.count_map] at hcount
  refine (Multiset.card_le_card hle).trans (le_of_eq_of_le ?_ hcount)
  simp only [eq_comm]

/-- The representation invariant of every reachable store, with no decrement below
zero and no failed assertion on the way, and the heap-size subtraction safe before
and after a rebuild. -/
theorem performAll_representation (Q : ExpirationQueue) (ops : List (TimePoint × Op)) :
    ∃ replies s, (empty : KvStore Q).performAll ops = .ok (replies, s) ∧
      s.persistentKeys = KeyedMap.countWhere (fun entry => entry.expireAt.isNone) s.data ∧
      s.expiringKeys = KeyedMap.countWhere (fun entry => entry.expireAt.isSome) s.data ∧
      (∀ key entry t, s.data.lookup key = some entry → entry.expireAt = some t →
        (Q.elems s.expirations).count ⟨t, key, entry.generation⟩ = 1) ∧
      (∀ key generation, ((Q.elems s.expirations).filter
        fun r => r.key = key ∧ r.generation = generation).card ≤ 1) ∧
      (∀ r ∈ Q.elems s.expirations, r.generation ≤ s.nextExpirationGeneration) ∧
      s.expiringKeys ≤ s.heapSize ∧
      ∀ now maxRecordsToProcess, ∃ result swept rebuilt,
        s.sweepExpiredLocked now maxRecordsToProcess = .ok (result, swept) ∧
        swept.expiringKeys ≤ swept.heapSize ∧
        swept.rebuildExpirationHeapLocked = .ok rebuilt ∧
        rebuilt.expiringKeys ≤ rebuilt.heapSize := by
  obtain ⟨replies, s, hrun, wf⟩ := performAll_wellFormed ops (wellFormed_empty (Q := Q))
  refine ⟨replies, s, hrun, wf.persistent, wf.expiring,
    fun _ _ _ hlook hexp => wf.count_record hlook hexp, wf.card_generation_le, wf.issued,
    wf.expiringKeys_le_heapSize, fun now maxRecordsToProcess => ?_⟩
  obtain ⟨result, swept, hsweep, hswept⟩ := sweepExpiredLocked_spec wf now maxRecordsToProcess
  obtain ⟨rebuilt, hbuild, hwf, -⟩ := rebuild_spec hswept.wellFormed
  exact ⟨result, swept, rebuilt, hsweep, hswept.wellFormed.expiringKeys_le_heapSize, hbuild,
    hwf.expiringKeys_le_heapSize⟩

/-! ### The sweeper's pass -/

/-- The inner loop of `TcpServer::SweeperLoop`: `clock` and `stopRequested` give the
values read around the successive calls; `none` means the fuel ran out first. -/
def sweeperPass (clock : Nat → TimePoint) (stopRequested : Nat → Bool)
    (maxRecordsToProcess : Nat) :
    Nat → Nat → KvStore Q → Except Fault (Option (List SweepResult × KvStore Q))
  | 0, _, _ => pure none
  | fuel + 1, call, s => do
      let (result, s) ← s.sweepExpired (clock call) maxRecordsToProcess
      if result.hasMoreExpired && !stopRequested call then
        let rest ← sweeperPass clock stopRequested maxRecordsToProcess fuel (call + 1) s
        pure (rest.map fun p => (result :: p.1, p.2))
      else
        pure (some ([result], s))

/-- A pass over a heap of at most `fuel` budgets ends within `fuel + 1` calls. -/
theorem sweeperPass_terminates (now : TimePoint) {m : Nat} (hm : 1 ≤ m) (fuel call : Nat)
    {s : KvStore Q} (wf : WellFormed s) (hheap : s.heapSize ≤ fuel * m) :
    ∃ results s',
      sweeperPass (fun _ => now) (fun _ => false) m (fuel + 1) call s = .ok (some (results, s')) ∧
      results.length ≤ fuel + 1 ∧ WellFormed s' ∧ Pruned now s.data s'.data ∧
      s'.hasExpiredTop now = false := by
  induction fuel generalizing s call with
  | zero =>
      obtain ⟨result, s₁, hrun, hswept⟩ := sweepExpired_spec wf now m
      cases hmore : result.hasMoreExpired with
      | true =>
          have := hswept.shrinks hmore
          omega
      | false =>
          refine ⟨[result], s₁, by simp [sweeperPass, hrun, hmore], by simp, hswept.wellFormed,
            hswept.pruned, ?_⟩
          rw [← hswept.more, hmore]
  | succ fuel ih =>
      obtain ⟨result, s₁, hrun, hswept⟩ := sweepExpired_spec wf now m
      cases hmore : result.hasMoreExpired with
      | true =>
          have hshrink := hswept.shrinks hmore
          have hheap₁ : s₁.heapSize ≤ fuel * m := by
            rw [Nat.succ_mul] at hheap
            omega
          obtain ⟨results, s₂, hpass, hlen, hwf, hpruned, hdone⟩ :=
            ih (call + 1) hswept.wellFormed hheap₁
          refine ⟨result :: results, s₂, ?_, by simpa using hlen, hwf,
            hswept.pruned.trans hpruned, hdone⟩
          rw [sweeperPass, hrun]
          simp [hmore, hpass]
      | false =>
          refine ⟨[result], s₁, ?_, by simp, hswept.wellFormed, hswept.pruned, ?_⟩
          · rw [sweeperPass, hrun]
            simp [hmore]
          · rw [← hswept.more, hmore]

theorem le_ceil_mul {n m : Nat} (hm : 1 ≤ m) : n ≤ (n + m - 1) / m * m := by
  have hmod := Nat.mod_lt (n + m - 1) (Nat.lt_of_lt_of_le Nat.zero_lt_one hm)
  have hdiv := Nat.div_add_mod' (n + m - 1) m
  omega

/-- A sweep of a reachable store removes only expired entries, counts them, stays
within its budget and leaves no expired entry when it reports none; repeated at a
fixed time it ends within the stated number of calls with every expired key gone. -/
theorem sweepExpired_complete (Q : ExpirationQueue) (s : KvStore Q) (hs : Reachable s)
    (now : TimePoint) (m : Nat) :
    (∃ result s', s.sweepExpired now m = .ok (result, s') ∧
      (∀ key, s'.data.lookup key = s.data.lookup key ∨
        (s'.data.lookup key = none ∧ ∃ entry t, s.data.lookup key = some entry ∧
          entry.expireAt = some t ∧ t ≤ now)) ∧
      result.removed + KeyedMap.size s'.data = KeyedMap.size s.data ∧
      result.removed ≤ result.processed ∧ result.processed ≤ m ∧
      (result.hasMoreExpired = false → ∀ key entry t,
        s'.data.lookup key = some entry → entry.expireAt = some t → now < t)) ∧
    (1 ≤ m → ∃ results s',
      sweeperPass (fun _ => now) (fun _ => false) m ((s.heapSize + m - 1) / m + 1) 0 s =
        .ok (some (results, s')) ∧
      results.length ≤ (s.heapSize + m - 1) / m + 1 ∧
      ∀ key entry t, s'.data.lookup key = some entry → entry.expireAt = some t → now < t) := by
  have wf := hs.wellFormed
  constructor
  · obtain ⟨result, s', hrun, hswept⟩ := sweepExpired_spec wf now m
    refine ⟨result, s', hrun, hswept.pruned, hswept.removed, hswept.removed_le,
      hswept.processed_le, ?_⟩
    intro hmore key entry t hlook hexp
    exact hswept.wellFormed.unexpired (hswept.more ▸ hmore) hlook hexp
  · intro hm
    obtain ⟨results, s', hpass, hlen, hwf, -, hdone⟩ :=
      sweeperPass_terminates now hm _ 0 wf (le_ceil_mul hm)
    exact ⟨results, s', hpass, hlen, fun _ _ _ hlook hexp => hwf.unexpired hdone hlook hexp⟩

/-- A store whose heap holds a stale record and an expired one. -/
theorem sweepExpired_complete_stale_record :
    let s : KvStore sortedExpirations := finalStore
      [(0, .set (ascii "a") (ascii "1")), (0, .expire (ascii "a") 1),
        (0, .expire (ascii "a") 2)]
    s.heapSize = 2 ∧ ∃ results s',
      sweeperPass (fun _ => 3000000000) (fun _ => false) 1 ((s.heapSize + 1 - 1) / 1 + 1) 0 s =
        .ok (some (results, s')) ∧
      results.length ≤ (s.heapSize + 1 - 1) / 1 + 1 ∧
      ∀ key entry t, s'.data.lookup key = some entry → entry.expireAt = some t →
        3000000000 < t :=
  ⟨by decide,
    (sweepExpired_complete sortedExpirations _ (reachable_finalStore _) 3000000000 1).2 le_rfl⟩

end TinyKv.KvStore
