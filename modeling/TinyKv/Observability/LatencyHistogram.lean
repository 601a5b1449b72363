import Mathlib.Algebra.BigOperators.Intervals
import TinyKv.Core.Bytes
import TinyKv.Foundation.KeyedMap
import TinyKv.Foundation.Machine

/-!
# The latency histogram

`RecordCommandLatency` runs on all sub reactors, `Snapshot` beside them. Every `fetch_add`,
`compare_exchange` and `load` is one step of its own, and the steps interleave.

The other counters of a snapshot, which are loaded before those of the histogram, are left
out. The counters are natural numbers: a process does not live to count to 2^64.
-/

namespace TinyKv

open Foundation

/-- `LATENCY_UPPER_BOUNDS_NS`. -/
def latencyUpperBoundsNs : List Nat := [10000, 50000, 100000, 500000, 1000000, 5000000]

/-- The loop of `RecordCommandLatency` over the bounds. -/
def bucketIndexFrom (latencyNs : Nat) : List Nat → Nat
  | [] => 0
  | bound :: rest => if latencyNs > bound then bucketIndexFrom latencyNs rest + 1 else 0

/-- The bucket of a latency. -/
def bucketIndex (latencyNs : Nat) : Nat := bucketIndexFrom latencyNs latencyUpperBoundsNs

/-- The members of `ServerMetricsSnapshot` that belong to the histogram. -/
structure LatencySnapshot where
  commandLatencyCount : Nat := 0
  commandLatencyTotalNanoseconds : Nat := 0
  commandLatencyMaximumNanoseconds : Nat := 0
  commandLatencyBuckets : Nat → Nat := fun _ => 0

/-! ### The estimate -/

/-- The smallest rank that is at least the given percentage of the count. The source computes
`ceil(double(count) * percentile)` in floating point, which may differ from it for a count of
about `2 ^ 48` or more. -/
def targetRank (percent count : Nat) : Nat := (count * percent + 99) / 100

/-- `upperBoundsUs` in `EstimatePercentileBucketUs`. -/
def upperBoundsUs : List Nat := [10, 50, 100, 500, 1000, 5000]

/-- The loop of `EstimatePercentileBucketUs`; `none` is beyond the last bound. -/
def estimateFrom (buckets : Nat → Nat) (rank : Nat) : Nat → Nat → List Nat → Option Nat
  | _, _, [] => none
  | accumulated, i, bound :: rest =>
      let accumulated := accumulated + buckets i
      if accumulated ≥ rank then some bound else estimateFrom buckets rank accumulated (i + 1) rest

/-- The bound that `EstimatePercentileBucketUs` finds. -/
def percentileBound (snapshot : LatencySnapshot) (percent : Nat) : Option Nat :=
  if snapshot.commandLatencyCount = 0 then
    some 0
  else
    estimateFrom snapshot.commandLatencyBuckets
      (targetRank percent snapshot.commandLatencyCount) 0 0 upperBoundsUs

/-- `EstimatePercentileBucketUs`. -/
def estimatePercentileBucketUs (snapshot : LatencySnapshot) (percent : Nat) : Bytes :=
  match percentileBound snapshot percent with
  | none => ascii ">5000"
  | some bound => natText bound

/-! ### The steps -/

/-- The next step of a call of `RecordCommandLatency`. -/
inductive RecordPoint where
  | addTotal
  | loadMaximum
  | exchangeMaximum (current : Nat)
  | addBucket
deriving DecidableEq

/-- A call of `RecordCommandLatency` that has counted its latency. It is `seen` when it did so
before the snapshot loaded the count. -/
structure Recording where
  latencyNs : Nat
  point : RecordPoint := .addTotal
  seen : Bool := false
deriving DecidableEq

/-- The counters of the histogram, the calls of `RecordCommandLatency` in progress, and the
snapshot with the number of loads it has made. Moreover the latencies whose recording has
started, and how many had when the count was loaded; for each bucket, the calls that have reached
it since then without being seen; and of the buckets that have been loaded, the seen calls that
had not reached them then, and the calls that had without being seen. -/
structure LatencyHistogram (ι : Type) where
  count : Nat := 0
  total : Nat := 0
  maximum : Nat := 0
  buckets : Nat → Nat := fun _ => 0
  recording : KeyedMap ι Recording := ∅
  loads : Nat := 0
  snapshot : LatencySnapshot := {}
  started : List Int := []
  counted : Nat := 0
  unseen : Nat → Nat := fun _ => 0
  missed : Nat := 0
  extra : Nat := 0

namespace LatencyHistogram

variable {ι : Type} [DecidableEq ι]

/-- `RecordCommandLatency` up to the count. -/
def beginRecord (h : LatencyHistogram ι) (thread : ι) (latency : Int) : LatencyHistogram ι :=
  { h with
    count := h.count + 1
    recording := h.recording.insert thread { latencyNs := latency.toNat }
    started := h.started ++ [latency] }

/-- Where `UpdateMaximum` goes on with the maximum it has read. -/
def compareMaximum (latencyNs current : Nat) : RecordPoint :=
  if latencyNs > current then .exchangeMaximum current else .addBucket

/-- The last step of `RecordCommandLatency`. -/
def addBucket (h : LatencyHistogram ι) (thread : ι) (r : Recording) : LatencyHistogram ι :=
  let i := bucketIndex r.latencyNs
  { h with
    buckets := Function.update h.buckets i (h.buckets i + 1)
    recording := h.recording.erase thread
    unseen := if r.seen then h.unseen else Function.update h.unseen i (h.unseen i + 1) }

/-- The next step of the call of a thread; a weak `compare_exchange` may fail without cause. -/
def record (h : LatencyHistogram ι) (thread : ι) (spurious : Bool) : LatencyHistogram ι :=
  match h.recording.lookup thread with
  | none => h
  | some r =>
      match r.point with
      | .addTotal =>
          { h with
            total := h.total + r.latencyNs
            recording := h.recording.insert thread { r with point := .loadMaximum } }
      | .loadMaximum =>
          let point := compareMaximum r.latencyNs h.maximum
          { h with recording := h.recording.insert thread { r with point } }
      | .exchangeMaximum current =>
          if h.maximum = current ∧ spurious = false then
            { h with
              maximum := r.latencyNs
              recording := h.recording.insert thread { r with point := .addBucket } }
          else
            let point := compareMaximum r.latencyNs h.maximum
            { h with recording := h.recording.insert thread { r with point } }
      | .addBucket => h.addBucket thread r

/-- A seen call that has yet to reach a bucket. -/
def pendingIn (i : Nat) (r : Recording) : Bool := r.seen && bucketIndex r.latencyNs == i

/-- The load of a bucket. -/
def loadBucket (h : LatencyHistogram ι) (i : Nat) : LatencyHistogram ι :=
  { h with
    loads := h.loads + 1
    snapshot := { h.snapshot with
      commandLatencyBuckets :=
        Function.update h.snapshot.commandLatencyBuckets i (h.buckets i) }
    missed := h.missed + KeyedMap.countWhere (pendingIn i) h.recording
    extra := h.extra + h.unseen i }

/-- The next load of `Snapshot`. -/
def load (h : LatencyHistogram ι) : LatencyHistogram ι :=
  match h.loads with
  | 0 =>
      { h with
        loads := 1
        snapshot := { h.snapshot with commandLatencyCount := h.count }
        counted := h.started.length
        recording := KeyedMap.mapValues (fun r => { r with seen := true }) h.recording
        unseen := fun _ => 0 }
  | 1 =>
      { h with
        loads := 2
        snapshot := { h.snapshot with commandLatencyTotalNanoseconds := h.total } }
  | 2 =>
      { h with
        loads := 3
        snapshot := { h.snapshot with commandLatencyMaximumNanoseconds := h.maximum } }
  | i + 3 => if i < 7 then h.loadBucket i else h

/-- The steps of the recording threads and of the snapshot. -/
inductive Action (ι : Type) where
  | beginRecord (thread : ι) (latency : Int)
  | record (thread : ι) (spurious : Bool)
  | load

/-- One step. A thread begins a call when its last one has returned. -/
def step (h : LatencyHistogram ι) : Action ι → LatencyHistogram ι
  | .beginRecord thread latency =>
      match h.recording.lookup thread with
      | none => h.beginRecord thread latency
      | some _ => h
  | .record thread spurious => h.record thread spurious
  | .load => h.load

/-- The interleavings. -/
def machine : Machine (LatencyHistogram ι) (Action ι) := ⟨step⟩

/-- The histogram after a run of steps. -/
def run (h : LatencyHistogram ι) (actions : List (Action ι)) : LatencyHistogram ι :=
  machine.run h actions

/-! ### What a snapshot misses -/

/-- A seen call that has yet to reach one of the buckets from an index on. -/
def pendingFrom (k : Nat) (r : Recording) : Bool := r.seen && k ≤ bucketIndex r.latencyNs

/-- The number of buckets that have been loaded. -/
def loadedBuckets (h : LatencyHistogram ι) : Nat := h.loads - 3

/-- The buckets and the calls in progress account for the count. -/
structure Balanced (h : LatencyHistogram ι) : Prop where
  loads_le : h.loads ≤ 10
  before : h.loads = 0 →
    h.count = ∑ i ∈ Finset.range 7, h.buckets i + KeyedMap.size h.recording ∧
      h.missed = 0 ∧ h.extra = 0
  after : 0 < h.loads →
    h.snapshot.commandLatencyCount + h.extra + ∑ i ∈ Finset.Ico h.loadedBuckets 7, h.unseen i =
      ∑ i ∈ Finset.range 7, h.snapshot.commandLatencyBuckets i + h.missed +
        ∑ i ∈ Finset.Ico h.loadedBuckets 7, h.buckets i +
        KeyedMap.countWhere (pendingFrom h.loadedBuckets) h.recording
  unloaded : ∀ i, h.loadedBuckets ≤ i → h.snapshot.commandLatencyBuckets i = 0

omit [DecidableEq ι] in
theorem balanced_init : ({} : LatencyHistogram ι).Balanced where
  loads_le := Nat.zero_le _
  before _ := by simp [KeyedMap.size]
  after hpos := absurd hpos (Nat.lt_irrefl 0)
  unloaded _ _ := rfl

theorem bucketIndexFrom_le (latencyNs : Nat) (bounds : List Nat) :
    bucketIndexFrom latencyNs bounds ≤ bounds.length := by
  induction bounds with
  | nil => exact Nat.le_refl 0
  | cons bound rest ih =>
      rw [bucketIndexFrom]
      split
      · exact Nat.succ_le_succ ih
      · exact Nat.zero_le _

theorem bucketIndex_lt (latencyNs : Nat) : bucketIndex latencyNs < 7 :=
  Nat.lt_succ_of_le (bucketIndexFrom_le latencyNs latencyUpperBoundsNs)

theorem sum_update_succ (f : Nat → Nat) (k : Nat) {i : Nat} (hi : i < 7) :
    ∑ j ∈ Finset.Ico k 7, Function.update f i (f i + 1) j =
      ∑ j ∈ Finset.Ico k 7, f j + if k ≤ i then 1 else 0 := by
  split
  · next hle =>
    have hmem : i ∈ Finset.Ico k 7 := Finset.mem_Ico.mpr ⟨hle, hi⟩
    rw [Finset.sum_update_of_mem hmem, Finset.sdiff_singleton_eq_erase,
      ← Finset.add_sum_erase _ f hmem]
    omega
  · next hlt =>
    have hmem : i ∉ Finset.Ico k 7 := fun hmem => hlt (Finset.mem_Ico.mp hmem).1
    rw [Finset.sum_update_of_notMem hmem, Nat.add_zero]

/-- A call that has moved on without reaching its bucket. -/
theorem Balanced.advance {h h' : LatencyHistogram ι} (hb : h.Balanced) {thread : ι}
    {r : Recording} (hlook : h.recording.lookup thread = some r) (point : RecordPoint)
    (heq : h' = { h with
      total := h'.total
      maximum := h'.maximum
      recording := h.recording.insert thread { r with point } }) : h'.Balanced := by
  have hsize := KeyedMap.size_insert_over { r with point } hlook
  have hcount : KeyedMap.countWhere (pendingFrom h.loadedBuckets)
      (h.recording.insert thread { r with point }) =
        KeyedMap.countWhere (pendingFrom h.loadedBuckets) h.recording :=
    Nat.add_right_cancel (KeyedMap.countWhere_insert_over _ { r with point } hlook)
  rw [heq]
  refine ⟨hb.loads_le, fun hloads => ?_, fun hloads => ?_, hb.unloaded⟩
  · have := hb.before hloads
    simp only [hsize]
    exact this
  · have hafter := hb.after hloads
    simp only [loadedBuckets] at hcount hafter ⊢
    rw [hcount]
    exact hafter

theorem Balanced.beginRecord {h : LatencyHistogram ι} (hb : h.Balanced) {thread : ι}
    (hlook : h.recording.lookup thread = none) (latency : Int) :
    (h.beginRecord thread latency).Balanced := by
  have hsize := KeyedMap.size_insert_new ({ latencyNs := latency.toNat } : Recording) hlook
  have hcount := KeyedMap.countWhere_insert_new (pendingFrom h.loadedBuckets)
    ({ latencyNs := latency.toNat } : Recording) hlook
  refine ⟨hb.loads_le, fun hloads => ?_, fun hloads => ?_, hb.unloaded⟩
  · obtain ⟨hbefore, hmissed, hextra⟩ := hb.before hloads
    refine ⟨?_, hmissed, hextra⟩
    simp only [LatencyHistogram.beginRecord, hsize, hbefore]
    omega
  · have hafter := hb.after hloads
    simp only [pendingFrom, Bool.false_and, Bool.false_eq_true, if_false, Nat.add_zero] at hcount
    simp only [LatencyHistogram.beginRecord, loadedBuckets] at hafter hcount ⊢
    omega

theorem Balanced.addBucket {h : LatencyHistogram ι} (hb : h.Balanced) {thread : ι}
    {r : Recording} (hlook : h.recording.lookup thread = some r) :
    (h.addBucket thread r).Balanced := by
  have hsize := KeyedMap.countWhere_erase (fun _ => true) hlook
  have hcount := KeyedMap.countWhere_erase (pendingFrom h.loadedBuckets) hlook
  have hlt := bucketIndex_lt r.latencyNs
  have hall := sum_update_succ h.buckets 0 hlt
  have hbuckets := sum_update_succ h.buckets h.loadedBuckets hlt
  have hunseen := sum_update_succ h.unseen h.loadedBuckets hlt
  rw [← Finset.range_eq_Ico, if_pos (Nat.zero_le _)] at hall
  refine ⟨hb.loads_le, fun hloads => ?_, fun hloads => ?_, hb.unloaded⟩
  · obtain ⟨hbefore, hmissed, hextra⟩ := hb.before hloads
    refine ⟨?_, hmissed, hextra⟩
    simp only [← KeyedMap.size_eq_countWhere, if_true] at hsize
    simp only [LatencyHistogram.addBucket, hall, hbefore, hsize]
    omega
  · have hafter := hb.after hloads
    have hsame : (h.addBucket thread r).loadedBuckets = h.loadedBuckets := rfl
    rw [hsame]
    simp only [LatencyHistogram.addBucket]
    cases hseen : r.seen with
    | true =>
        simp only [pendingFrom, hseen, Bool.true_and, decide_eq_true_eq] at hcount
        simp only [reduceIte, hbuckets]
        omega
    | false =>
        simp only [pendingFrom, hseen, Bool.false_and, Bool.false_eq_true, if_false,
          Nat.add_zero] at hcount
        simp only [Bool.false_eq_true, reduceIte, hbuckets, hunseen]
        omega

theorem Balanced.record {h : LatencyHistogram ι} (hb : h.Balanced) (thread : ι)
    (spurious : Bool) : (h.record thread spurious).Balanced := by
  unfold LatencyHistogram.record
  cases hlook : h.recording.lookup thread with
  | none => exact hb
  | some r =>
      simp only
      cases r.point with
      | addTotal => exact hb.advance hlook .loadMaximum rfl
      | loadMaximum => exact hb.advance hlook (compareMaximum r.latencyNs h.maximum) rfl
      | exchangeMaximum current =>
          simp only
          split
          · exact hb.advance hlook .addBucket rfl
          · exact hb.advance hlook (compareMaximum r.latencyNs h.maximum) rfl
      | addBucket => exact hb.addBucket hlook

omit [DecidableEq ι] in
/-- A call that is pending is so for the first of the buckets, or for a later one. -/
theorem countWhere_pendingFrom (k : Nat) (recording : KeyedMap ι Recording) :
    KeyedMap.countWhere (pendingFrom k) recording =
      KeyedMap.countWhere (pendingIn k) recording +
        KeyedMap.countWhere (pendingFrom (k + 1)) recording := by
  apply KeyedMap.countWhere_eq_add
  intro r
  obtain hlt | rfl | hgt := lt_trichotomy k (bucketIndex r.latencyNs)
  · have hle : k ≤ bucketIndex r.latencyNs := Nat.le_of_lt hlt
    simp [pendingFrom, pendingIn, hle, Nat.succ_le_of_lt hlt, hlt.ne']
  · simp [pendingFrom, pendingIn]
  · have hnot : ¬ k ≤ bucketIndex r.latencyNs := Nat.not_le_of_lt hgt
    have hnot' : ¬ k + 1 ≤ bucketIndex r.latencyNs := fun hle => hnot (Nat.le_of_succ_le hle)
    simp [pendingFrom, pendingIn, hnot, hnot', beq_false_of_ne hgt.ne]

omit [DecidableEq ι] in
theorem Balanced.loadBucket {h : LatencyHistogram ι} (hb : h.Balanced) {i : Nat}
    (hloads : h.loads = i + 3) (hi : i < 7) : (h.loadBucket i).Balanced := by
  have hloaded : h.loadedBuckets = i := by
    rw [loadedBuckets, hloads, Nat.add_sub_cancel]
  have hafter := hb.after (by omega)
  have hzero := hb.unloaded i (Nat.le_of_eq hloaded)
  have hloaded' : (h.loadBucket i).loadedBuckets = i + 1 := by
    simp only [loadedBuckets, LatencyHistogram.loadBucket, hloads]
    omega
  have hmem : i ∈ Finset.range 7 := Finset.mem_range.mpr hi
  have hsnapshot : ∑ j ∈ Finset.range 7,
      Function.update h.snapshot.commandLatencyBuckets i (h.buckets i) j =
        ∑ j ∈ Finset.range 7, h.snapshot.commandLatencyBuckets j + h.buckets i := by
    rw [Finset.sum_update_of_mem hmem, Finset.sdiff_singleton_eq_erase,
      ← Finset.add_sum_erase _ _ hmem, hzero]
    omega
  have hbuckets := Finset.sum_eq_sum_Ico_succ_bot hi h.buckets
  have hunseen := Finset.sum_eq_sum_Ico_succ_bot hi h.unseen
  have hpending := countWhere_pendingFrom i h.recording
  rw [hloaded] at hafter
  refine ⟨?_, fun hnone => ?_, fun _ => ?_, fun j hj => ?_⟩
  · simp only [LatencyHistogram.loadBucket]
    omega
  · simp only [LatencyHistogram.loadBucket] at hnone
    omega
  · rw [hloaded']
    simp only [LatencyHistogram.loadBucket, hsnapshot]
    omega
  · rw [hloaded'] at hj
    simp only [LatencyHistogram.loadBucket]
    rw [Function.update_of_ne (by omega)]
    exact hb.unloaded j (by omega)

omit [DecidableEq ι] in
/-- The load of the total or of the maximum. -/
theorem Balanced.loadOther {h h' : LatencyHistogram ι} (hb : h.Balanced) {loads : Nat}
    (hloads : h.loads = loads) (hpos : 0 < loads) (hle : loads ≤ 2)
    (heq : h' = { h with loads := loads + 1, snapshot := h'.snapshot })
    (hcount : h'.snapshot.commandLatencyCount = h.snapshot.commandLatencyCount)
    (hbuckets : h'.snapshot.commandLatencyBuckets = h.snapshot.commandLatencyBuckets) :
    h'.Balanced := by
  have hbefore : h.loadedBuckets = 0 := by
    rw [loadedBuckets, hloads]
    omega
  have hafter : h'.loadedBuckets = 0 := by
    rw [heq]
    simp only [loadedBuckets]
    omega
  have hbalance := hb.after (by omega)
  have hunloaded := hb.unloaded
  rw [hbefore] at hbalance hunloaded
  constructor
  · rw [heq]
    simp only
    omega
  · rw [heq]
    exact nofun
  · intro _
    rw [hafter, hcount, hbuckets, heq]
    exact hbalance
  · rw [hafter, hbuckets]
    exact hunloaded

omit [DecidableEq ι] in
/-- The load of the count: all calls in progress have been seen. -/
theorem Balanced.loadCount {h : LatencyHistogram ι} (hb : h.Balanced) (hloads : h.loads = 0) :
    h.load.Balanced := by
  obtain ⟨hcount, hmissed, hextra⟩ := hb.before hloads
  have hloaded : h.loadedBuckets = 0 := by
    rw [loadedBuckets, hloads]
  have hpending : KeyedMap.countWhere (pendingFrom 0)
      (KeyedMap.mapValues (fun r => { r with seen := true }) h.recording) =
        KeyedMap.size h.recording := by
    simp [KeyedMap.countWhere, KeyedMap.mapValues, KeyedMap.size, pendingFrom,
      List.countP_map, Function.comp_def]
  have hsnapshot : ∑ i ∈ Finset.range 7, h.snapshot.commandLatencyBuckets i = 0 := by
    apply Finset.sum_eq_zero
    intro i _
    exact hb.unloaded i (hloaded ▸ Nat.zero_le i)
  simp only [LatencyHistogram.load, hloads]
  refine ⟨by simp only; omega, fun hzero => ?_, fun _ => ?_, fun i _ => ?_⟩
  · cases hzero
  · simp only [loadedBuckets, Nat.reduceSub, hpending, hsnapshot, hmissed, hextra, hcount,
      ← Finset.range_eq_Ico, Finset.sum_const_zero]
    omega
  · exact hb.unloaded i (hloaded ▸ Nat.zero_le i)

omit [DecidableEq ι] in
theorem Balanced.load {h : LatencyHistogram ι} (hb : h.Balanced) : h.load.Balanced := by
  by_cases hzero : h.loads = 0
  · exact hb.loadCount hzero
  unfold LatencyHistogram.load
  split
  · next hloads => exact absurd hloads hzero
  · next hloads => exact hb.loadOther hloads Nat.one_pos (Nat.le_succ 1) rfl rfl rfl
  · next hloads => exact hb.loadOther hloads Nat.two_pos (Nat.le_refl 2) rfl rfl rfl
  · next i hloads =>
    split
    · next hi => exact hb.loadBucket hloads hi
    · exact hb

theorem Balanced.step {h : LatencyHistogram ι} (hb : h.Balanced) (action : Action ι) :
    (h.step action).Balanced := by
  cases action with
  | beginRecord thread latency =>
      simp only [LatencyHistogram.step]
      cases hlook : h.recording.lookup thread with
      | none => exact hb.beginRecord hlook latency
      | some r => exact hb
  | record thread spurious => exact hb.record thread spurious
  | load => exact hb.load

/-- The count is that of the calls that have started. -/
structure Counted (h : LatencyHistogram ι) : Prop where
  count : h.count = h.started.length
  loaded : 0 < h.loads → h.snapshot.commandLatencyCount = h.counted

omit [DecidableEq ι] in
theorem Counted.load {h : LatencyHistogram ι} (hc : h.Counted) : h.load.Counted := by
  unfold LatencyHistogram.load
  split
  · exact ⟨hc.count, fun _ => hc.count⟩
  · next hloads => exact ⟨hc.count, fun _ => hc.loaded (by omega)⟩
  · next hloads => exact ⟨hc.count, fun _ => hc.loaded (by omega)⟩
  · next i hloads =>
    split
    · exact ⟨hc.count, fun _ => hc.loaded (by omega)⟩
    · exact hc

theorem Counted.step {h : LatencyHistogram ι} (hc : h.Counted) (action : Action ι) :
    (h.step action).Counted := by
  cases action with
  | beginRecord thread latency =>
      simp only [LatencyHistogram.step]
      cases h.recording.lookup thread with
      | none =>
          refine ⟨?_, hc.loaded⟩
          simp only [LatencyHistogram.beginRecord, List.length_append, hc.count]
          rfl
      | some r => exact hc
  | record thread spurious =>
      simp only [LatencyHistogram.step, LatencyHistogram.record]
      cases h.recording.lookup thread with
      | none => exact hc
      | some r =>
          simp only
          cases r.point with
          | addTotal => exact ⟨hc.count, hc.loaded⟩
          | loadMaximum => exact ⟨hc.count, hc.loaded⟩
          | exchangeMaximum current =>
              simp only
              split
              · exact ⟨hc.count, hc.loaded⟩
              · exact ⟨hc.count, hc.loaded⟩
          | addBucket => exact ⟨hc.count, hc.loaded⟩
  | load => exact hc.load

/-! ### Where the latencies come from -/

/-- A started recording belongs to a bucket. -/
def Occurs (h : LatencyHistogram ι) (i : Nat) : Prop :=
  ∃ latency ∈ h.started, bucketIndex latency.toNat = i

/-- Every bucket holds latencies whose recording has started. -/
structure Accounted (h : LatencyHistogram ι) : Prop where
  recording : ∀ thread r, h.recording.lookup thread = some r →
    h.Occurs (bucketIndex r.latencyNs)
  buckets : ∀ i, h.buckets i ≠ 0 → h.Occurs i
  loaded : ∀ i, h.snapshot.commandLatencyBuckets i ≠ 0 → h.Occurs i

theorem accounted_init : ({} : LatencyHistogram ι).Accounted where
  recording _ _ hlook := by simp at hlook
  buckets _ hne := absurd rfl hne
  loaded _ hne := absurd rfl hne

theorem Accounted.advance {h : LatencyHistogram ι} (ha : h.Accounted) {thread : ι}
    {r : Recording} (hlook : h.recording.lookup thread = some r) (point : RecordPoint) :
    ∀ thread' r', (h.recording.insert thread { r with point }).lookup thread' = some r' →
      h.Occurs (bucketIndex r'.latencyNs) :=
  KeyedMap.forall_lookup_insert (ha.recording thread r hlook) fun thread' r' _ =>
    ha.recording thread' r'

theorem Accounted.beginRecord {h : LatencyHistogram ι} (ha : h.Accounted) (thread : ι)
    (latency : Int) : (h.beginRecord thread latency).Accounted := by
  have hold {i : Nat} (hi : h.Occurs i) : (h.beginRecord thread latency).Occurs i := by
    obtain ⟨latency', hmem, hindex⟩ := hi
    exact ⟨latency', List.mem_append_left _ hmem, hindex⟩
  constructor
  · apply KeyedMap.forall_lookup_insert
    · exact ⟨latency, List.mem_append_right _ (List.mem_singleton_self _), rfl⟩
    · intro thread' r' _ hlook
      exact hold (ha.recording thread' r' hlook)
  · exact fun i hne => hold (ha.buckets i hne)
  · exact fun i hne => hold (ha.loaded i hne)

theorem Accounted.addBucket {h : LatencyHistogram ι} (ha : h.Accounted) {thread : ι}
    {r : Recording} (hlook : h.recording.lookup thread = some r) :
    (h.addBucket thread r).Accounted := by
  refine ⟨fun thread' r' hlook' => ?_, fun i hne => ?_, ha.loaded⟩
  · simp only [LatencyHistogram.addBucket, KeyedMap.lookup_erase_eq] at hlook'
    split at hlook'
    · cases hlook'
    · exact ha.recording thread' r' hlook'
  · by_cases hi : i = bucketIndex r.latencyNs
    · rw [hi]
      exact ha.recording thread r hlook
    · simp only [LatencyHistogram.addBucket, Function.update_of_ne hi] at hne
      exact ha.buckets i hne

theorem Accounted.record {h : LatencyHistogram ι} (ha : h.Accounted) (thread : ι)
    (spurious : Bool) : (h.record thread spurious).Accounted := by
  unfold LatencyHistogram.record
  cases hlook : h.recording.lookup thread with
  | none => exact ha
  | some r =>
      simp only
      cases r.point with
      | addTotal => exact ⟨ha.advance hlook .loadMaximum, ha.buckets, ha.loaded⟩
      | loadMaximum =>
          exact ⟨ha.advance hlook (compareMaximum r.latencyNs h.maximum), ha.buckets, ha.loaded⟩
      | exchangeMaximum current =>
          simp only
          split
          · exact ⟨ha.advance hlook .addBucket, ha.buckets, ha.loaded⟩
          · exact ⟨ha.advance hlook (compareMaximum r.latencyNs h.maximum), ha.buckets,
              ha.loaded⟩
      | addBucket => exact ha.addBucket hlook

theorem Accounted.load {h : LatencyHistogram ι} (ha : h.Accounted) : h.load.Accounted := by
  unfold LatencyHistogram.load
  split
  · refine ⟨fun thread r hlook => ?_, ha.buckets, ha.loaded⟩
    obtain ⟨before, hbefore, rfl⟩ := KeyedMap.lookup_mapValues.mp hlook
    exact ha.recording thread before hbefore
  · exact ⟨ha.recording, ha.buckets, ha.loaded⟩
  · exact ⟨ha.recording, ha.buckets, ha.loaded⟩
  · next k _ =>
    split
    · refine ⟨ha.recording, ha.buckets, fun i hne => ?_⟩
      by_cases hi : i = k
      · subst hi
        simp only [LatencyHistogram.loadBucket, Function.update_self] at hne
        exact ha.buckets i hne
      · simp only [LatencyHistogram.loadBucket, Function.update_of_ne hi] at hne
        exact ha.loaded i hne
    · exact ha

theorem Accounted.step {h : LatencyHistogram ι} (ha : h.Accounted) (action : Action ι) :
    (h.step action).Accounted := by
  cases action with
  | beginRecord thread latency =>
      simp only [LatencyHistogram.step]
      cases h.recording.lookup thread with
      | none => exact ha.beginRecord thread latency
      | some r => exact ha
  | record thread spurious => exact ha.record thread spurious
  | load => exact ha.load

/-! ### The estimate of a snapshot -/

theorem bucketIndexFrom_le_of_le {latencyNs : Nat} {bounds : List Nat} {m : Nat} {bound : Nat}
    (hget : bounds[m]? = some bound) (hle : latencyNs ≤ bound) :
    bucketIndexFrom latencyNs bounds ≤ m := by
  induction bounds generalizing m with
  | nil => cases hget
  | cons first rest ih =>
      rw [bucketIndexFrom]
      split
      · next hgt =>
        cases m with
        | zero =>
            cases hget
            omega
        | succ m => exact Nat.succ_le_succ (ih hget)
      · exact Nat.zero_le m

theorem mem_of_estimateFrom {buckets : Nat → Nat} {rank : Nat} {bounds : List Nat}
    {accumulated i answer : Nat}
    (h : estimateFrom buckets rank accumulated i bounds = some answer) : answer ∈ bounds := by
  induction bounds generalizing accumulated i with
  | nil => cases h
  | cons first rest ih =>
      rw [estimateFrom] at h
      split at h
      · cases h
        exact List.mem_cons_self ..
      · exact List.mem_cons_of_mem first (ih h)

/-- The estimate is at most the `m`-th bound when the buckets up to it reach the rank; by
induction on the bounds that are left, which ascend. -/
theorem estimateFrom_le_iff {buckets : Nat → Nat} {rank : Nat} {bounds : List Nat} {m bound : Nat}
    (hsorted : bounds.Pairwise (· < ·)) (hget : bounds[m]? = some bound) (accumulated i : Nat) :
    (∃ answer, estimateFrom buckets rank accumulated i bounds = some answer ∧ answer ≤ bound) ↔
      rank ≤ accumulated + ∑ j ∈ Finset.range (m + 1), buckets (i + j) := by
  induction bounds generalizing m accumulated i with
  | nil => cases hget
  | cons first rest ih =>
      obtain ⟨hfirst, hrest⟩ := List.pairwise_cons.mp hsorted
      rw [Finset.sum_range_succ', estimateFrom]
      simp only [Nat.add_zero]
      by_cases hreached : accumulated + buckets i ≥ rank
      · rw [if_pos hreached]
        apply iff_of_true
        · refine ⟨first, rfl, ?_⟩
          cases m with
          | zero =>
              cases hget
              exact Nat.le_refl _
          | succ m => exact Nat.le_of_lt (hfirst bound (List.mem_of_getElem? hget))
        · omega
      · rw [if_neg hreached]
        cases m with
        | zero =>
            cases hget
            apply iff_of_false
            · rintro ⟨answer, hanswer, hle⟩
              have hlater := hfirst answer (mem_of_estimateFrom hanswer)
              omega
            · rw [Finset.sum_range_zero]
              omega
        | succ m =>
            rw [ih hrest hget]
            have hshift : ∑ j ∈ Finset.range (m + 1), buckets (i + 1 + j) =
                ∑ j ∈ Finset.range (m + 1), buckets (i + (j + 1)) := by
              apply Finset.sum_congr rfl
              intro j _
              congr 1
              omega
            rw [hshift]
            omega

/-- Without latencies above a bound, the buckets up to it hold all of a finished snapshot. -/
theorem sum_loaded {h : LatencyHistogram ι} (ha : h.Accounted) {m bound : Nat}
    (hget : latencyUpperBoundsNs[m]? = some bound)
    (hstarted : ∀ latency ∈ h.started, latency ≤ bound) :
    ∑ i ∈ Finset.range (m + 1), h.snapshot.commandLatencyBuckets i =
      ∑ i ∈ Finset.range 7, h.snapshot.commandLatencyBuckets i := by
  have hm : m + 1 ≤ 7 := by
    obtain ⟨hlt, -⟩ := List.getElem?_eq_some_iff.mp hget
    exact Nat.le_succ_of_le hlt
  apply Finset.sum_subset (Finset.range_mono hm)
  intro i _ hbeyond
  by_contra hne
  obtain ⟨latency, hmem, hindex⟩ := ha.loaded i hne
  have hle := hstarted latency hmem
  have hbucket : bucketIndex latency.toNat ≤ m :=
    bucketIndexFrom_le_of_le hget (Int.toNat_le.mpr hle)
  rw [Finset.mem_range] at hbeyond
  omega

/-- When no recorded latency exceeds a bucket bound, the estimate of a finished snapshot stays
at or below it exactly when the recordings that the snapshot has counted and missed, less those
it has found without counting them, are as few as the percentile leaves out. -/
theorem percentileBound_le_iff (actions : List (Action ι)) (percent : Nat) :
    let h := ({} : LatencyHistogram ι).run actions
    h.loads = 10 → ∀ bound ∈ upperBoundsUs,
      (∀ latency ∈ h.started, latency ≤ (bound * 1000 : Nat)) →
      ((∃ answer, percentileBound h.snapshot percent = some answer ∧ answer ≤ bound) ↔
        h.counted = 0 ∨ targetRank percent h.counted + h.missed ≤ h.counted + h.extra) := by
  intro h hloads bound hbound hstarted
  have hb : h.Balanced :=
    machine.run_invariant (fun _ hb action _ => hb.step action) balanced_init
  have ha : h.Accounted :=
    machine.run_invariant (fun _ ha action _ => ha.step action) accounted_init
  have hc : h.Counted :=
    machine.run_invariant (fun _ hc action _ => hc.step action) ⟨rfl, nofun⟩
  obtain ⟨m, hget⟩ := List.getElem?_of_mem hbound
  have hgetNs : latencyUpperBoundsNs[m]? = some (bound * 1000) := by
    have hmap : latencyUpperBoundsNs = upperBoundsUs.map (· * 1000) := by decide
    rw [hmap, List.getElem?_map, hget]
    rfl
  have hbalance := hb.after (by omega)
  have hloaded : h.loadedBuckets = 7 := by
    rw [loadedBuckets, hloads]
  have hpending : KeyedMap.countWhere (pendingFrom 7) h.recording = 0 := by
    simp only [KeyedMap.countWhere, List.countP_eq_zero]
    intro e _
    have hlt := bucketIndex_lt e.2.latencyNs
    simp only [pendingFrom, Bool.and_eq_true, decide_eq_true_eq]
    omega
  rw [hloaded, Finset.Ico_self, Finset.sum_empty, Finset.sum_empty, hpending,
    ← sum_loaded ha hgetNs hstarted] at hbalance
  rw [← hc.loaded (by omega)]
  by_cases hcount : h.snapshot.commandLatencyCount = 0
  · apply iff_of_true
    · exact ⟨0, if_pos hcount, Nat.zero_le bound⟩
    · exact .inl hcount
  · have hestimate := @estimateFrom_le_iff h.snapshot.commandLatencyBuckets
      (targetRank percent h.snapshot.commandLatencyCount) upperBoundsUs m bound (by decide) hget 0 0
    rw [percentileBound, if_neg hcount, hestimate, or_iff_right hcount]
    simp only [Nat.zero_add]
    omega

/-- A command of one microsecond, counted and not yet in its bucket when all is loaded. -/
def tornRun : List (Action Nat) := .beginRecord 0 1000 :: List.replicate 10 .load

theorem percentileBound_le_iff_torn :
    let h := ({} : LatencyHistogram Nat).run tornRun
    (∃ answer, percentileBound h.snapshot 95 = some answer ∧ answer ≤ 10) ↔
      h.counted = 0 ∨ targetRank 95 h.counted + h.missed ≤ h.counted + h.extra :=
  percentileBound_le_iff tornRun 95 rfl 10 (by decide) (by decide)

/-- Its snapshot answers that the percentiles exceed five milliseconds. -/
theorem estimate_of_torn_snapshot :
    let h := ({} : LatencyHistogram Nat).run tornRun
    h.loads = 10 ∧ h.started = [1000] ∧
      percentileBound h.snapshot 95 = none ∧
      estimatePercentileBucketUs h.snapshot 95 = ascii ">5000" ∧
      estimatePercentileBucketUs h.snapshot 99 = ascii ">5000" :=
  ⟨rfl, rfl, rfl, rfl, rfl⟩

end LatencyHistogram

end TinyKv
