import Mathlib.Algebra.Order.Floor.Semiring
import Mathlib.Data.Rat.Floor
import Mathlib.Tactic.IntervalCases
import TinyKv.Observability.LatencyHistogram

/-!
# Percentiles of a quiescent snapshot

When every call has returned, a bucket holds exactly the latencies of its interval. The
estimate runs over the same intervals, in other units and with the comparison the other
way round; it stops at the first bound that enough of the latencies do not exceed.
-/

namespace TinyKv

open Foundation

/-- The rank is the percentage of the count, rounded up. -/
theorem targetRank_eq_ceil (percent count : Nat) :
    targetRank percent count = ⌈((count * percent : Nat) / 100 : ℚ)⌉₊ := by
  apply eq_of_forall_ge_iff
  intro rank
  rw [Nat.ceil_le, div_le_iff₀ (by norm_num)]
  norm_cast
  simp only [targetRank]
  omega

theorem targetRank_mono (count : Nat) {percent percent' : Nat} (h : percent ≤ percent') :
    targetRank percent count ≤ targetRank percent' count := by
  have hmul : count * percent ≤ count * percent' := Nat.mul_le_mul_left count h
  simp only [targetRank]
  omega

/-- The bounds of the recorder are those of the estimate in nanoseconds. -/
theorem latencyUpperBoundsNs_eq : latencyUpperBoundsNs = upperBoundsUs.map (· * 1000) := by
  decide

theorem le_of_bucketIndexFrom_le {latencyNs : Nat} {bounds : List Nat} {m bound : Nat}
    (hsorted : bounds.Pairwise (· < ·)) (hget : bounds[m]? = some bound)
    (hle : bucketIndexFrom latencyNs bounds ≤ m) : latencyNs ≤ bound := by
  induction bounds generalizing m with
  | nil => cases hget
  | cons first rest ih =>
      obtain ⟨hfirst, hrest⟩ := List.pairwise_cons.mp hsorted
      rw [bucketIndexFrom] at hle
      split at hle
      · cases m with
        | zero => omega
        | succ m => exact ih hrest hget (Nat.le_of_succ_le_succ hle)
      · next hwithin =>
        cases m with
        | zero =>
            cases hget
            exact Nat.le_of_not_gt hwithin
        | succ m =>
            have hlater := hfirst bound (List.mem_of_getElem? hget)
            omega

/-- The buckets up to an index hold the latencies up to its bound. -/
theorem bucketIndex_le_iff {latencyNs m bound : Nat} (hget : upperBoundsUs[m]? = some bound) :
    bucketIndex latencyNs ≤ m ↔ latencyNs ≤ bound * 1000 := by
  have hgetNs : latencyUpperBoundsNs[m]? = some (bound * 1000) := by
    rw [latencyUpperBoundsNs_eq, List.getElem?_map, hget]
    rfl
  exact ⟨le_of_bucketIndexFrom_le (by decide) hgetNs,
    LatencyHistogram.bucketIndexFrom_le_of_le hgetNs⟩

/-- How many of the latencies do not exceed a bound in microseconds; a negative latency
counts as 0. -/
def countUpTo (latencies : List Int) (boundUs : Nat) : Nat :=
  latencies.countP fun latency => decide (latency.toNat ≤ boundUs * 1000)

/-- Counting by index adds up to counting up to an index; by induction on the items. -/
theorem sum_countP_eq {α : Type*} (f : α → Nat) (items : List α) (m : Nat) :
    ∑ j ∈ Finset.range m, items.countP (fun a => f a == j) =
      items.countP fun a => decide (f a < m) := by
  induction items with
  | nil => simp
  | cons a rest ih =>
      simp only [List.countP_cons, Finset.sum_add_distrib, ih, beq_iff_eq, decide_eq_true_eq,
        Finset.sum_ite_eq, Finset.mem_range]

/-- The snapshot holds exactly these latencies. -/
structure LatencySnapshot.Holds (snapshot : LatencySnapshot) (latencies : List Int) : Prop where
  count : snapshot.commandLatencyCount = latencies.length
  buckets : ∀ i < 7, snapshot.commandLatencyBuckets i =
    latencies.countP fun latency => bucketIndex latency.toNat == i

namespace LatencySnapshot.Holds

variable {snapshot : LatencySnapshot} {latencies : List Int}

/-- The first buckets hold the latencies with a small index. -/
theorem sum_range (h : snapshot.Holds latencies) {m : Nat} (hm : m ≤ 7) :
    ∑ i ∈ Finset.range m, snapshot.commandLatencyBuckets i =
      latencies.countP fun latency => decide (bucketIndex latency.toNat < m) := by
  calc ∑ i ∈ Finset.range m, snapshot.commandLatencyBuckets i
      = ∑ i ∈ Finset.range m,
          latencies.countP (fun latency => bucketIndex latency.toNat == i) := by
        apply Finset.sum_congr rfl
        intro i hi
        apply h.buckets
        rw [Finset.mem_range] at hi
        omega
    _ = latencies.countP fun latency => decide (bucketIndex latency.toNat < m) :=
        sum_countP_eq ..

theorem sum_eq_countUpTo (h : snapshot.Holds latencies) {m bound : Nat}
    (hget : upperBoundsUs[m]? = some bound) :
    ∑ i ∈ Finset.range (m + 1), snapshot.commandLatencyBuckets i = countUpTo latencies bound := by
  obtain ⟨hm, -⟩ := List.getElem?_eq_some_iff.mp hget
  have hlength : upperBoundsUs.length = 6 := rfl
  rw [h.sum_range (by omega)]
  apply List.countP_congr
  intro latency _
  simp only [decide_eq_true_eq, Nat.lt_succ_iff, bucketIndex_le_iff hget]

theorem sum_buckets (h : snapshot.Holds latencies) :
    ∑ i ∈ Finset.range 7, snapshot.commandLatencyBuckets i = snapshot.commandLatencyCount := by
  rw [h.sum_range le_rfl, h.count]
  apply List.countP_eq_length.mpr
  intro latency _
  exact decide_eq_true (LatencyHistogram.bucketIndex_lt latency.toNat)

theorem count_ne_zero (h : snapshot.Holds latencies) (hne : latencies ≠ []) :
    snapshot.commandLatencyCount ≠ 0 := by
  rw [h.count]
  exact fun hzero => hne (List.length_eq_zero_iff.mp hzero)

/-! ### The estimate -/

/-- The estimate is within a bound exactly when enough of the latencies are. -/
theorem percentileBound_le_iff_countUpTo (h : snapshot.Holds latencies) (hne : latencies ≠ [])
    (percent : Nat) {bound : Nat} (hbound : bound ∈ upperBoundsUs) :
    (∃ answer, percentileBound snapshot percent = some answer ∧ answer ≤ bound) ↔
      targetRank percent latencies.length ≤ countUpTo latencies bound := by
  obtain ⟨m, hget⟩ := List.getElem?_of_mem hbound
  have hestimate := @LatencyHistogram.estimateFrom_le_iff snapshot.commandLatencyBuckets
    (targetRank percent snapshot.commandLatencyCount) upperBoundsUs m bound (by decide) hget 0 0
  simp only [Nat.zero_add] at hestimate
  rw [percentileBound, if_neg (h.count_ne_zero hne), hestimate, h.sum_eq_countUpTo hget, h.count]

/-- The answer is the smallest bound that enough of the latencies do not exceed. -/
theorem percentileBound_some (h : snapshot.Holds latencies) (hne : latencies ≠ [])
    {percent bound : Nat} (hestimate : percentileBound snapshot percent = some bound) :
    bound ∈ upperBoundsUs ∧ targetRank percent latencies.length ≤ countUpTo latencies bound ∧
      ∀ smaller ∈ upperBoundsUs, smaller < bound →
        countUpTo latencies smaller < targetRank percent latencies.length := by
  have hmem : bound ∈ upperBoundsUs := by
    rw [percentileBound, if_neg (h.count_ne_zero hne)] at hestimate
    exact LatencyHistogram.mem_of_estimateFrom hestimate
  have henough := (h.percentileBound_le_iff_countUpTo hne percent hmem).mp
    ⟨bound, hestimate, le_rfl⟩
  refine ⟨hmem, henough, fun smaller hsmaller hlt => ?_⟩
  by_contra hle
  obtain ⟨answer, hanswer, hle'⟩ :=
    (h.percentileBound_le_iff_countUpTo hne percent hsmaller).mpr (not_lt.mp hle)
  rw [hestimate] at hanswer
  cases hanswer
  omega

/-- Beyond the last bound there is no bound that enough of the latencies do not exceed. -/
theorem percentileBound_none (h : snapshot.Holds latencies) (hne : latencies ≠ [])
    {percent : Nat} (hestimate : percentileBound snapshot percent = none) {bound : Nat}
    (hmem : bound ∈ upperBoundsUs) :
    countUpTo latencies bound < targetRank percent latencies.length := by
  by_contra hle
  obtain ⟨answer, hanswer, -⟩ :=
    (h.percentileBound_le_iff_countUpTo hne percent hmem).mpr (not_lt.mp hle)
  rw [hestimate] at hanswer
  cases hanswer

/-- The bound does not grow less with the percentage. -/
theorem percentileBound_mono (h : snapshot.Holds latencies) (hne : latencies ≠ [])
    {percent percent' bound : Nat} (hle : percent ≤ percent')
    (hestimate : percentileBound snapshot percent' = some bound) :
    ∃ bound', percentileBound snapshot percent = some bound' ∧ bound' ≤ bound := by
  obtain ⟨hmem, henough, -⟩ := h.percentileBound_some hne hestimate
  apply (h.percentileBound_le_iff_countUpTo hne percent hmem).mpr
  calc targetRank percent latencies.length
      ≤ targetRank percent' latencies.length := targetRank_mono _ hle
    _ ≤ countUpTo latencies bound := henough

end LatencySnapshot.Holds

namespace LatencyHistogram

variable {ι : Type} [DecidableEq ι]

/-! ### The buckets of finished calls -/

/-- A bucket and the calls that have yet to reach it hold the latencies of its interval. -/
def Filed (h : LatencyHistogram ι) : Prop :=
  ∀ i, h.buckets i + KeyedMap.countWhere (fun r => bucketIndex r.latencyNs == i) h.recording =
    h.started.countP fun latency => bucketIndex latency.toNat == i

omit [DecidableEq ι] in
theorem filed_init : ({} : LatencyHistogram ι).Filed := fun _ => rfl

theorem Filed.beginRecord {h : LatencyHistogram ι} (hf : h.Filed) {thread : ι}
    (hlook : h.recording.lookup thread = none) (latency : Int) :
    (h.beginRecord thread latency).Filed := by
  intro i
  have hcount := KeyedMap.countWhere_insert_new (fun r : Recording => bucketIndex r.latencyNs == i)
    ({ latencyNs := latency.toNat } : Recording) hlook
  have hbefore := hf i
  simp only [LatencyHistogram.beginRecord, List.countP_append, List.countP_singleton, hcount]
  omega

theorem Filed.advance {h h' : LatencyHistogram ι} (hf : h.Filed) {thread : ι} {r : Recording}
    (hlook : h.recording.lookup thread = some r) (point : RecordPoint)
    (heq : h' = { h with
      total := h'.total
      maximum := h'.maximum
      recording := h.recording.insert thread { r with point } }) : h'.Filed := by
  intro i
  have hcount : KeyedMap.countWhere (fun r => bucketIndex r.latencyNs == i)
      (h.recording.insert thread { r with point }) =
        KeyedMap.countWhere (fun r => bucketIndex r.latencyNs == i) h.recording :=
    Nat.add_right_cancel (KeyedMap.countWhere_insert_over _ { r with point } hlook)
  rw [heq]
  simp only [hcount]
  exact hf i

theorem Filed.addBucket {h : LatencyHistogram ι} (hf : h.Filed) {thread : ι} {r : Recording}
    (hlook : h.recording.lookup thread = some r) : (h.addBucket thread r).Filed := by
  intro i
  have hcount := KeyedMap.countWhere_erase (fun r => bucketIndex r.latencyNs == i) hlook
  have hbefore := hf i
  simp only [LatencyHistogram.addBucket]
  by_cases hi : i = bucketIndex r.latencyNs
  · subst hi
    simp only [BEq.rfl, if_true] at hcount
    rw [Function.update_self]
    omega
  · simp only [beq_iff_eq, Ne.symm hi, if_false] at hcount
    rw [Function.update_of_ne hi]
    omega

theorem Filed.record {h : LatencyHistogram ι} (hf : h.Filed) (thread : ι) (spurious : Bool) :
    (h.record thread spurious).Filed := by
  unfold LatencyHistogram.record
  cases hlook : h.recording.lookup thread with
  | none => exact hf
  | some r =>
      simp only
      cases r.point with
      | addTotal => exact hf.advance hlook .loadMaximum rfl
      | loadMaximum => exact hf.advance hlook (compareMaximum r.latencyNs h.maximum) rfl
      | exchangeMaximum current =>
          simp only
          split
          · exact hf.advance hlook .addBucket rfl
          · exact hf.advance hlook (compareMaximum r.latencyNs h.maximum) rfl
      | addBucket => exact hf.addBucket hlook

omit [DecidableEq ι] in
theorem Filed.load {h : LatencyHistogram ι} (hf : h.Filed) : h.load.Filed := by
  unfold LatencyHistogram.load
  split
  · intro i
    have hcount : KeyedMap.countWhere (fun r => bucketIndex r.latencyNs == i)
        (KeyedMap.mapValues (fun r => { r with seen := true }) h.recording) =
          KeyedMap.countWhere (fun r => bucketIndex r.latencyNs == i) h.recording := by
      simp [KeyedMap.countWhere, KeyedMap.mapValues, List.countP_map, Function.comp_def]
    simp only [hcount]
    exact hf i
  · exact hf
  · exact hf
  · split
    · exact hf
    · exact hf

theorem Filed.step {h : LatencyHistogram ι} (hf : h.Filed) (action : Action ι) :
    (h.step action).Filed := by
  cases action with
  | beginRecord thread latency =>
      simp only [LatencyHistogram.step]
      cases hlook : h.recording.lookup thread with
      | none => exact hf.beginRecord hlook latency
      | some r => exact hf
  | record thread spurious => exact hf.record thread spurious
  | load => exact hf.load

/-! ### A recording and a snapshot of it -/

/-- The run is the recording of these latencies: no load has been made, and every call has
returned. -/
structure Records (actions : List (Action ι)) (latencies : List Int) : Prop where
  unloaded : (({} : LatencyHistogram ι).run actions).loads = 0
  started : (({} : LatencyHistogram ι).run actions).started = latencies
  returned : (({} : LatencyHistogram ι).run actions).recording = ∅

/-- A call of `RecordCommandLatency` that no other thread interrupts. -/
def recordCommandLatency (thread : ι) (latency : Int) : List (Action ι) :=
  .beginRecord thread latency :: List.replicate 4 (.record thread false)

/-- The calls of one thread, one after the other. -/
def recordAll (thread : ι) (latencies : List Int) : List (Action ι) :=
  latencies.flatMap (recordCommandLatency thread)

/-- The loads of `Snapshot`. -/
def loadAll : List (Action ι) := List.replicate 10 .load

/-- One call is in progress. -/
structure Calling (thread : ι) (r : Recording) (loads : Nat) (started : List Int)
    (h : LatencyHistogram ι) : Prop where
  recording : h.recording = AList.singleton thread r
  loads : h.loads = loads
  started : h.started = started

theorem Calling.addTotal {h : LatencyHistogram ι} {thread : ι} {latencyNs loads : Nat}
    {started : List Int} (hc : h.Calling thread { latencyNs } loads started) :
    (h.record thread false).Calling thread { latencyNs, point := .loadMaximum } loads
      started := by
  obtain ⟨hrecording, rfl, rfl⟩ := hc
  constructor <;>
    simp [LatencyHistogram.record, hrecording, KeyedMap.lookup_singleton_self]

theorem Calling.loadMaximum {h : LatencyHistogram ι} {thread : ι} {latencyNs loads : Nat}
    {started : List Int}
    (hc : h.Calling thread { latencyNs, point := .loadMaximum } loads started) :
    (h.record thread false).Calling thread
      { latencyNs, point := compareMaximum latencyNs h.maximum } loads started ∧
    (h.record thread false).maximum = h.maximum := by
  obtain ⟨hrecording, rfl, rfl⟩ := hc
  refine ⟨?_, ?_⟩
  · constructor <;>
      simp [LatencyHistogram.record, hrecording, KeyedMap.lookup_singleton_self]
  · simp [LatencyHistogram.record, hrecording, KeyedMap.lookup_singleton_self]

theorem Calling.exchangeMaximum {h : LatencyHistogram ι} {thread : ι} {latencyNs loads : Nat}
    {started : List Int}
    (hc : h.Calling thread { latencyNs, point := .exchangeMaximum h.maximum } loads started) :
    (h.record thread false).Calling thread { latencyNs, point := .addBucket } loads
      started := by
  obtain ⟨hrecording, rfl, rfl⟩ := hc
  constructor <;>
    simp [LatencyHistogram.record, hrecording, KeyedMap.lookup_singleton_self]

theorem Calling.addBucket {h : LatencyHistogram ι} {thread : ι} {latencyNs loads : Nat}
    {started : List Int}
    (hc : h.Calling thread { latencyNs, point := .addBucket } loads started) :
    (h.record thread false).loads = loads ∧ (h.record thread false).started = started ∧
      (h.record thread false).recording = ∅ := by
  obtain ⟨hrecording, rfl, rfl⟩ := hc
  simp [LatencyHistogram.record, hrecording, KeyedMap.lookup_singleton_self,
    LatencyHistogram.addBucket, KeyedMap.erase_singleton_self]

/-- An uninterrupted call returns within its four steps after the count. -/
theorem run_recordCommandLatency {h : LatencyHistogram ι} (hidle : h.recording = ∅)
    (thread : ι) (latency : Int) :
    (h.run (recordCommandLatency thread latency)).loads = h.loads ∧
      (h.run (recordCommandLatency thread latency)).started = h.started ++ [latency] ∧
      (h.run (recordCommandLatency thread latency)).recording = ∅ := by
  have hrun : h.run (recordCommandLatency thread latency) =
      ((((h.step (.beginRecord thread latency)).record thread false).record thread
        false).record thread false).record thread false := rfl
  have hbegun : (h.step (.beginRecord thread latency)).Calling thread
      { latencyNs := latency.toNat } h.loads (h.started ++ [latency]) := by
    constructor <;> simp [step, hidle, LatencyHistogram.beginRecord]
  obtain ⟨hcompared, hmaximum⟩ := hbegun.addTotal.loadMaximum
  rw [hrun]
  simp only [compareMaximum] at hcompared
  split at hcompared
  · rw [← hmaximum] at hcompared
    exact hcompared.exchangeMaximum.addBucket
  · -- the maximum stays as it is, and the call has returned one step earlier
    obtain ⟨hloads, hstarted, hreturned⟩ := hcompared.addBucket
    have hdone {done : LatencyHistogram ι} (hreturned : done.recording = ∅) :
        done.record thread false = done := by
      simp [LatencyHistogram.record, hreturned]
    rw [hdone hreturned]
    exact ⟨hloads, hstarted, hreturned⟩

/-- Recording a list of latencies, by induction on the list. -/
theorem run_recordAll (thread : ι) (latencies : List Int) {h : LatencyHistogram ι}
    (hidle : h.recording = ∅) :
    (h.run (recordAll thread latencies)).loads = h.loads ∧
      (h.run (recordAll thread latencies)).started = h.started ++ latencies ∧
      (h.run (recordAll thread latencies)).recording = ∅ := by
  induction latencies generalizing h with
  | nil => exact ⟨rfl, (List.append_nil _).symm, hidle⟩
  | cons latency rest ih =>
      obtain ⟨hloads, hstarted, hreturned⟩ := run_recordCommandLatency hidle thread latency
      obtain ⟨hloads', hstarted', hreturned'⟩ := ih hreturned
      have happend : h.run (recordAll thread (latency :: rest)) =
          (h.run (recordCommandLatency thread latency)).run (recordAll thread rest) := by
        rw [recordAll, List.flatMap_cons, run, Machine.run_append]
        rfl
      rw [happend]
      refine ⟨hloads'.trans hloads, ?_, hreturned'⟩
      rw [hstarted', hstarted, List.append_assoc]
      rfl

theorem records_recordAll (thread : ι) (latencies : List Int) :
    Records (recordAll thread latencies) latencies := by
  obtain ⟨hloads, hstarted, hreturned⟩ :=
    run_recordAll thread latencies (h := ({} : LatencyHistogram ι)) rfl
  exact ⟨hloads, hstarted, hreturned⟩

/-- The ten loads of a snapshot nothing interferes with. -/
theorem run_loadAll {h : LatencyHistogram ι} (hloads : h.loads = 0) :
    (h.run loadAll).snapshot.commandLatencyCount = h.count ∧
      ∀ i < 7, (h.run loadAll).snapshot.commandLatencyBuckets i = h.buckets i := by
  obtain ⟨count, total, maximum, buckets, recording, loads, snapshot, started, counted, unseen,
    missed, extra⟩ := h
  simp only at hloads
  subst hloads
  refine ⟨rfl, fun i hi => ?_⟩
  interval_cases i <;> rfl

/-- A snapshot taken after the recording of some latencies holds them. -/
theorem Records.snapshot {actions : List (Action ι)} {latencies : List Int}
    (h : Records actions latencies) :
    (({} : LatencyHistogram ι).run (actions ++ loadAll)).snapshot.Holds latencies := by
  have hf : (({} : LatencyHistogram ι).run actions).Filed :=
    machine.run_invariant (fun _ hf action _ => hf.step action) filed_init
  have hc : (({} : LatencyHistogram ι).run actions).Counted :=
    machine.run_invariant (fun _ hc action _ => hc.step action) ⟨rfl, nofun⟩
  have happend : ({} : LatencyHistogram ι).run (actions ++ loadAll) =
      (({} : LatencyHistogram ι).run actions).run loadAll := by
    simp only [run, Machine.run_append]
  obtain ⟨hcount, hbuckets⟩ := run_loadAll h.unloaded
  rw [happend]
  refine ⟨by rw [hcount, hc.count, h.started], fun i hi => ?_⟩
  have hfiled := hf i
  rw [h.returned, h.started] at hfiled
  rw [hbuckets i hi]
  exact hfiled

/-- When a list of latencies has been recorded, in whatever interleaving of the recording
threads, and a snapshot is taken afterwards, its buckets sum up to its count, and a
percentile of it is the smallest bound that the rank of the percentile, rounded up, of the
latencies do not exceed, or beyond the last bound if there is none; so the bound does not
grow less with the percentage. -/
theorem percentile_nearest_rank (thread : ι) (latencies : List Int) (hne : latencies ≠ []) :
    Records (recordAll thread latencies) latencies ∧
    ∀ actions : List (Action ι), Records actions latencies →
      let snapshot := (({} : LatencyHistogram ι).run (actions ++ loadAll)).snapshot
      snapshot.commandLatencyCount = latencies.length ∧
      ∑ i ∈ Finset.range 7, snapshot.commandLatencyBuckets i = snapshot.commandLatencyCount ∧
      (∀ percent,
        let rank := ⌈((latencies.length * percent : Nat) / 100 : ℚ)⌉₊
        (∃ bound ∈ [10, 50, 100, 500, 1000, 5000],
          estimatePercentileBucketUs snapshot percent = natText bound ∧
          percentileBound snapshot percent = some bound ∧ rank ≤ countUpTo latencies bound ∧
          ∀ smaller ∈ [10, 50, 100, 500, 1000, 5000], smaller < bound →
            countUpTo latencies smaller < rank) ∨
        (estimatePercentileBucketUs snapshot percent = ascii ">5000" ∧
          percentileBound snapshot percent = none ∧
          ∀ bound ∈ [10, 50, 100, 500, 1000, 5000], countUpTo latencies bound < rank)) ∧
      ∀ bound, percentileBound snapshot 99 = some bound →
        ∃ bound', percentileBound snapshot 95 = some bound' ∧ bound' ≤ bound := by
  refine ⟨records_recordAll thread latencies, ?_⟩
  intro actions hrecords snapshot
  have hholds : snapshot.Holds latencies := hrecords.snapshot
  refine ⟨hholds.count, hholds.sum_buckets, fun percent => ?_, fun bound hbound => ?_⟩
  · intro rank
    have hrank : targetRank percent latencies.length = rank := targetRank_eq_ceil ..
    rw [← hrank]
    cases hestimate : percentileBound snapshot percent with
    | some bound =>
        obtain ⟨hmem, henough, hsmaller⟩ := hholds.percentileBound_some hne hestimate
        exact .inl ⟨bound, hmem, by rw [estimatePercentileBucketUs, hestimate], rfl, henough,
          hsmaller⟩
    | none =>
        exact .inr ⟨by rw [estimatePercentileBucketUs, hestimate], rfl,
          fun bound hmem => hholds.percentileBound_none hne hestimate hmem⟩
  · exact hholds.percentileBound_mono hne (by decide) hbound

/-- A latency on a bound, and a negative one. -/
theorem percentile_nearest_rank_on_bound :
    let snapshot := (({} : LatencyHistogram Nat).run
      (recordAll 0 [10000, -5] ++ loadAll)).snapshot
    snapshot.commandLatencyCount = 2 ∧
      ∑ i ∈ Finset.range 7, snapshot.commandLatencyBuckets i = 2 := by
  obtain ⟨hrecords, hall⟩ := percentile_nearest_rank 0 [10000, -5] (List.cons_ne_nil _ _)
  obtain ⟨hcount, hsum, -⟩ := hall _ hrecords
  exact ⟨hcount, hsum.trans hcount⟩

end LatencyHistogram

end TinyKv
