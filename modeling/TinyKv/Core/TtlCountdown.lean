import Mathlib.Data.Int.ConditionallyCompleteOrder
import TinyKv.Core.KvStoreRefinement

/-!
# The countdown of a key

From a successful `Expire` to the next operation that names the key in `Set`, `Del`
or `Expire`, the key has one deadline. Reads and sweeps compare it with their own
clock value: `IsExpired`, the sweep loop and `Ttl` draw the line at the same
instant, so `Ttl` counts down to 1 and from then on every operation finds the key
gone.
-/

namespace TinyKv.KvStore

open Foundation

variable {Q : ExpirationQueue}

/-! ### The computation in machine words -/

/-- `now + std::chrono::seconds(seconds)` in the 64-bit ticks of the clock. -/
def expireAtWord (now : Int64) (seconds : Int32) : Int64 :=
  now + seconds.toInt64 * 1000000000

/-- `std::chrono::ceil<std::chrono::seconds>`: a truncating division, corrected when
it fell short. -/
def ceilSecondsWord (remaining : Int64) : Int64 :=
  let truncated := remaining / 1000000000
  if truncated * 1000000000 < remaining then truncated + 1 else truncated

/-- The answer of `Ttl` for an entry with a deadline, as the 64-bit code computes it. -/
def ttlWord (expireAt now : Int64) : Int32 :=
  if now ≥ expireAt then -2 else (ceilSecondsWord (expireAt - now)).toInt32

/-- A count of nanoseconds the clock can represent. -/
def FitsClock (t : Int) : Prop := -2 ^ 63 ≤ t ∧ t < 2 ^ 63

theorem toInt_ofInt_of_fits {t : Int} (h : FitsClock t) : (Int64.ofInt t).toInt = t :=
  Int64.toInt_ofInt_of_le h.1 h.2

theorem bmod_of_fits {t : Int} (h : FitsClock t) : t.bmod (2 ^ 64) = t := by
  obtain ⟨hlow, hhigh⟩ := h
  apply Int.bmod_eq_of_le
  · omega
  · omega

theorem toInt_expireAtWord {now : Int} {seconds : Int32} (hnow : FitsClock now)
    (hfits : FitsClock (now + seconds.toInt * nanosPerSecond)) :
    (expireAtWord (Int64.ofInt now) seconds).toInt = now + seconds.toInt * nanosPerSecond := by
  have hlow := Int32.le_toInt seconds
  have hhigh := Int32.toInt_lt seconds
  have hproduct : FitsClock (seconds.toInt * 1000000000) := by
    constructor <;> omega
  rw [expireAtWord, Int64.toInt_add, Int64.toInt_mul, Int32.toInt_toInt64,
    toInt_ofInt_of_fits hnow]
  have hconst : (1000000000 : Int64).toInt = 1000000000 := rfl
  rw [hconst, bmod_of_fits hproduct]
  exact bmod_of_fits hfits

theorem toInt_ceilSecondsWord {remaining : Int64} (hpos : 0 < remaining.toInt) :
    (ceilSecondsWord remaining).toInt = ceilSeconds remaining.toInt := by
  have hlt := Int64.toInt_lt remaining
  have hconst : (1000000000 : Int64).toInt = 1000000000 := rfl
  have hdiv : (remaining / 1000000000).toInt = remaining.toInt / 1000000000 := by
    rw [Int64.toInt_div, hconst, Int.tdiv_eq_ediv_of_nonneg hpos.le]
    apply bmod_of_fits
    constructor <;> omega
  have hmul : (remaining / 1000000000 * 1000000000).toInt =
      remaining.toInt / 1000000000 * 1000000000 := by
    rw [Int64.toInt_mul, hdiv, hconst]
    apply bmod_of_fits
    constructor <;> omega
  simp only [ceilSecondsWord, ceilSeconds, nanosPerSecond, Int64.lt_iff_toInt_lt, hmul]
  split
  · have hone : (1 : Int64).toInt = 1 := rfl
    rw [Int64.toInt_add, hdiv, hone, bmod_of_fits (by constructor <;> omega)]
    omega
  · rw [hdiv]
    omega

/-! ### The deadline of a key -/

/-- The operations that replace, remove or re-time the entry of `key`. -/
def Op.writes (key : Bytes) : Op → Bool
  | .set k _ => k == key
  | .del k => k == key
  | .expire k _ => k == key
  | _ => false

/-- The entry of `key` has the deadline `d`; from `d` on it may be gone. -/
def DueAt (d : TimePoint) (key : Bytes) (now : TimePoint) (data : KeyedMap Bytes Entry) : Prop :=
  (∃ entry, data.lookup key = some entry ∧ entry.expireAt = some d) ∨
    (data.lookup key = none ∧ d ≤ now)

theorem DueAt.later {d t now : TimePoint} {key : Bytes} {data : KeyedMap Bytes Entry}
    (h : DueAt d key t data) (hle : t ≤ now) : DueAt d key now data := by
  obtain hentry | ⟨hnone, hd⟩ := h
  · exact .inl hentry
  · exact .inr ⟨hnone, hd.trans hle⟩

theorem DueAt.congr {d now : TimePoint} {key : Bytes} {data data' : KeyedMap Bytes Entry}
    (h : DueAt d key now data) (heq : data'.lookup key = data.lookup key) :
    DueAt d key now data' := by
  simpa only [DueAt, heq] using h

/-- A sweep or a lazy deletion takes the entry only when its deadline has passed. -/
theorem DueAt.pruned {d now : TimePoint} {key : Bytes} {data data' : KeyedMap Bytes Entry}
    (h : DueAt d key now data) (hp : Pruned now data data') : DueAt d key now data' := by
  obtain heq | ⟨hnone, entry, t, hlook, hexp, ht⟩ := hp key
  · exact h.congr heq
  · obtain ⟨entry', hlook', hexp'⟩ | ⟨hnone', -⟩ := h
    · rw [hlook] at hlook'
      cases hlook'
      rw [hexp] at hexp'
      cases hexp'
      exact .inr ⟨hnone, ht⟩
    · rw [hlook] at hnone'
      cases hnone'

theorem DueAt.expired {s : KvStore Q} (now : TimePoint) (key : Bytes) (seconds : Int32)
    (entry : Entry) :
    DueAt (now + seconds.toInt * nanosPerSecond) key now
      (s.expired now key seconds entry).data := by
  refine .inl ⟨s.expiring now seconds entry, ?_, rfl⟩
  simp only [KvStore.expired]
  rw [KeyedMap.lookup_insert_eq, if_pos rfl]

/-- An operation that does not name the key in a write leaves its deadline alone. -/
theorem DueAt.perform {s : KvStore Q} {d now : TimePoint} {key : Bytes} {op : Op}
    (wf : WellFormed s) (h : DueAt d key now s.data) (hkeep : op.writes key = false) :
    ∃ reply s', s.perform now op = .ok (reply, s') ∧ WellFormed s' ∧
      DueAt d key now s'.data := by
  cases op with
  | set k value =>
      have hne : key ≠ k := Ne.symm (by simpa [Op.writes] using hkeep)
      obtain ⟨s', generation, hrun, hwf, hdata⟩ := set_spec wf k value
      refine ⟨.done, s', by simp [KvStore.perform, hrun], hwf, h.congr ?_⟩
      rw [hdata, KeyedMap.lookup_insert_eq, if_neg hne]
  | get k =>
      obtain ⟨s', hrun, hwf, hp⟩ := get_spec wf now k
      exact ⟨_, s', by simp [KvStore.perform, hrun]; rfl, hwf, h.pruned hp⟩
  | del k =>
      have hne : key ≠ k := Ne.symm (by simpa [Op.writes] using hkeep)
      obtain ⟨s', hrun, hwf, hdata⟩ := del_spec wf now k
      refine ⟨_, s', by simp [KvStore.perform, hrun]; rfl, hwf, h.congr ?_⟩
      rw [hdata, KeyedMap.lookup_erase_eq, if_neg hne]
  | expire k seconds =>
      have hne : key ≠ k := Ne.symm (by simpa [Op.writes] using hkeep)
      by_cases hrefused : seconds.toInt ≤ 0 ∨ live? s.data now k = none
      · obtain ⟨s', hrun, hwf, hp⟩ := expire_refused wf hrefused
        exact ⟨.flag false, s', by simp [KvStore.perform, hrun], hwf, h.pruned hp⟩
      · obtain ⟨hpos, hlive⟩ := not_or.mp hrefused
        obtain ⟨entry, hentry⟩ := Option.ne_none_iff_exists'.mp hlive
        have hlook : s.data.lookup k = some entry := (Option.filter_eq_some_iff.mp hentry).1
        refine ⟨.flag true, _, by simp [KvStore.perform, expire_live wf (not_le.mp hpos) hentry],
          wf.expired now seconds hlook, h.congr ?_⟩
        simp only [KvStore.expired]
        rw [KeyedMap.lookup_insert_eq, if_neg hne]
  | ttl k =>
      obtain ⟨s', hrun, hwf, hp⟩ := ttl_spec wf now k
      exact ⟨_, s', by simp [KvStore.perform, hrun]; rfl, hwf, h.pruned hp⟩
  | stats => exact ⟨_, s, rfl, wf, h⟩
  | sweepExpired maxRecordsToProcess =>
      obtain ⟨result, s', hrun, hswept⟩ := sweepExpired_spec wf now maxRecordsToProcess
      exact ⟨.swept result, s', by simp [KvStore.perform, hrun], hswept.wellFormed,
        h.pruned hswept.pruned⟩

/-- The run lemma, by induction on the operations; `t` is the last clock reading. -/
theorem DueAt.performAll {d : TimePoint} {key : Bytes} (ops : List (TimePoint × Op))
    {s : KvStore Q} {t last : TimePoint} (wf : WellFormed s) (h : DueAt d key t s.data)
    (hclock : (t :: ops.map Prod.fst ++ [last]).Pairwise (· ≤ ·))
    (hkeep : ∀ op ∈ ops, op.2.writes key = false) :
    ∃ replies s', s.performAll ops = .ok (replies, s') ∧ WellFormed s' ∧
      DueAt d key last s'.data := by
  induction ops generalizing s t with
  | nil =>
      have hle : t ≤ last := by simpa using hclock
      exact ⟨[], s, rfl, wf, h.later hle⟩
  | cons op rest ih =>
      obtain ⟨now, op⟩ := op
      simp only [List.map_cons, List.cons_append, List.pairwise_cons] at hclock
      have hnow : t ≤ now := hclock.1 now (List.mem_cons_self ..)
      obtain ⟨reply, s₁, hop, hwf, hdue⟩ :=
        (h.later hnow).perform wf (hkeep _ (List.mem_cons_self ..))
      obtain ⟨replies, s₂, hrest, hwf₂, hdue₂⟩ := ih hwf hdue
        (by simpa only [List.cons_append, List.pairwise_cons] using hclock.2)
        fun op hmem => hkeep op (List.mem_cons_of_mem _ hmem)
      exact ⟨reply :: replies, s₂, by simp [KvStore.performAll, hop, hrest], hwf₂, hdue₂⟩

/-- A read at `now` finds the key exactly before its deadline. -/
theorem DueAt.live {d now : TimePoint} {key : Bytes} {data : KeyedMap Bytes Entry}
    (h : DueAt d key now data) :
    (now < d ∧ ∃ entry, live? data now key = some entry ∧ entry.expireAt = some d) ∨
      (d ≤ now ∧ live? data now key = none) := by
  obtain ⟨entry, hlook, hexp⟩ | ⟨hnone, hd⟩ := h
  · by_cases hlt : now < d
    · refine .inl ⟨hlt, entry, live?_live hlook ?_, hexp⟩
      simpa [isExpired, hexp] using hlt
    · refine .inr ⟨not_lt.mp hlt, live?_expired hlook ?_⟩
      simpa [isExpired, hexp] using hlt
  · exact .inr ⟨hd, live?_missing now hnone⟩

/-! ### The answers -/

/-- What `Ttl` answers at `now` for the deadline `d`. -/
def countdown (d now : Int) : Int :=
  if now < d then ⌈((d - now : Int) / (1000000000 : Nat) : ℚ)⌉ else -2

theorem countdown_before {d now : Int} (h : now < d) :
    countdown d now = -((-(d - now)) / 1000000000) := by
  simp only [countdown, if_pos h, Rat.ceil_intCast_div_natCast]
  rfl

theorem countdown_of_le {d now : Int} (h : d ≤ now) : countdown d now = -2 := by
  simp [countdown, not_lt.mpr h]

theorem countdown_range {d now : Int} (h : now < d) (seconds : Int)
    (hd : d ≤ now + seconds * nanosPerSecond) :
    1 ≤ countdown d now ∧ countdown d now ≤ seconds := by
  rw [countdown_before h]
  simp only [nanosPerSecond] at hd
  omega

theorem countdown_eq_neg_two_iff {d now : Int} : countdown d now = -2 ↔ d ≤ now := by
  constructor
  · intro h
    by_contra hlt
    rw [countdown_before (not_le.mp hlt)] at h
    omega
  · exact countdown_of_le

theorem countdown_antitone (d : Int) : Antitone (countdown d) := by
  intro t t' hle
  by_cases ht : t < d
  · by_cases ht' : t' < d
    · rw [countdown_before ht, countdown_before ht']
      omega
    · rw [countdown_before ht, countdown_of_le (not_lt.mp ht')]
      omega
  · rw [countdown_of_le (not_lt.mp ht), countdown_of_le ((not_lt.mp ht).trans hle)]

theorem countdown_ne_zero (d now : Int) : countdown d now ≠ 0 := by
  by_cases h : now < d
  · rw [countdown_before h]
    omega
  · rw [countdown_of_le (not_lt.mp h)]
    omega

/-- `Ttl` answers with the countdown and `Get` fails once it has run out. -/
theorem DueAt.answers {s : KvStore Q} {d now : TimePoint} {key : Bytes} (wf : WellFormed s)
    (h : DueAt d key now s.data) (hbound : d ≤ now + (2 ^ 31 - 1) * nanosPerSecond) :
    ∃ remaining s₁ found s₂,
      s.ttl now key = .ok (remaining, s₁) ∧ s.get now key = .ok (found, s₂) ∧
      WellFormed s₁ ∧ DueAt d key now s₁.data ∧
      remaining.toInt = countdown d now ∧ (found = none ↔ d ≤ now) := by
  obtain ⟨s₁, httl, hwf₁, hp⟩ := ttl_spec wf now key
  obtain ⟨s₂, hget, -⟩ := get_spec wf now key
  refine ⟨_, s₁, _, s₂, httl, hget, hwf₁, h.pruned hp, ?_, ?_⟩
  · obtain ⟨hlt, entry, hlive, hexp⟩ | ⟨hle, hlive⟩ := h.live
    · obtain ⟨value, expireAt, generation⟩ := entry
      cases hexp
      simp only [hlive, Option.map_some, Option.getD_some, countdown, if_pos hlt]
      exact remainingSeconds_toInt hlt hbound
    · rw [hlive, countdown_of_le hle]
      rfl
  · obtain ⟨hlt, entry, hlive, -⟩ | ⟨hle, hlive⟩ := h.live
    · simp [hlive, hlt]
    · simp [hlive, hle]

/-- The 64-bit computation of `Ttl` gives the countdown. -/
theorem toInt_ttlWord {expireAt now : Int64}
    (hle : expireAt.toInt - now.toInt ≤ (2 ^ 31 - 1) * nanosPerSecond) :
    (ttlWord expireAt now).toInt = countdown expireAt.toInt now.toInt := by
  by_cases hlt : now.toInt < expireAt.toInt
  · have hsub : (expireAt - now).toInt = expireAt.toInt - now.toInt := by
      rw [Int64.toInt_sub]
      apply bmod_of_fits
      simp only [nanosPerSecond] at hle
      constructor <;> omega
    have hpos : 0 < (expireAt - now).toInt := by omega
    have hrange := countdown_range hlt (2 ^ 31 - 1) (by omega)
    have hceil : ceilSeconds (expireAt.toInt - now.toInt) =
        countdown expireAt.toInt now.toInt := by
      rw [countdown_before hlt]
      rfl
    simp only [ttlWord, ge_iff_le, Int64.le_iff_toInt_le, not_le.mpr hlt, if_false]
    rw [Int64.toInt_toInt32, toInt_ceilSecondsWord hpos, hsub, hceil]
    apply Int.bmod_eq_of_le
    · omega
    · omega
  · have hle' := not_lt.mp hlt
    simp only [ttlWord, ge_iff_le, Int64.le_iff_toInt_le, hle', if_true]
    rw [countdown_of_le hle']
    rfl

/-- A successful `Expire` had a positive argument and left the key due at its deadline. -/
theorem expire_succeeded {s s' : KvStore Q} (wf : WellFormed s) {now : TimePoint} {key : Bytes}
    {seconds : Int32} (h : s.expire now key seconds = .ok (true, s')) :
    0 < seconds.toInt ∧ WellFormed s' ∧
      DueAt (now + seconds.toInt * nanosPerSecond) key now s'.data := by
  by_cases hrefused : seconds.toInt ≤ 0 ∨ live? s.data now key = none
  · obtain ⟨s₁, hrun, -⟩ := expire_refused wf hrefused
    rw [hrun] at h
    cases h
  · obtain ⟨hpos, hlive⟩ := not_or.mp hrefused
    obtain ⟨entry, hentry⟩ := Option.ne_none_iff_exists'.mp hlive
    have hlook : s.data.lookup key = some entry := (Option.filter_eq_some_iff.mp hentry).1
    rw [expire_live wf (not_le.mp hpos) hentry] at h
    cases h
    exact ⟨not_le.mp hpos, wf.expired now seconds hlook, DueAt.expired now key seconds entry⟩

/-- The readings of a clock up to one of them, and from it on. -/
theorem clock_split {t₀ t t' : TimePoint} {earlier later : List TimePoint}
    (h : (t₀ :: (earlier ++ t :: (later ++ [t']))).Pairwise (· ≤ ·)) :
    (t₀ :: earlier ++ [t]).Pairwise (· ≤ ·) ∧ (t :: later ++ [t']).Pairwise (· ≤ ·) ∧
      t₀ ≤ t ∧ t ≤ t' := by
  rw [← List.cons_append] at h
  obtain ⟨hbefore, hafter, hacross⟩ := List.pairwise_append.mp h
  have hlast (a : TimePoint) (ha : a ∈ t₀ :: earlier) : a ≤ t :=
    hacross a ha t (List.mem_cons_self ..)
  refine ⟨?_, hafter, hlast t₀ (List.mem_cons_self ..), ?_⟩
  · refine List.pairwise_append.mpr ⟨hbefore, List.pairwise_singleton _ _, fun a ha b hb => ?_⟩
    rw [List.mem_singleton.mp hb]
    exact hlast a ha
  · exact (List.pairwise_cons.mp hafter).1 t' (List.mem_append_right _ (List.mem_singleton_self t'))

/-- From a successful `Expire` to the next write of the key, `Ttl` answers with the
remaining time rounded up to whole seconds, between 1 and the argument of `Expire`,
and with -2 from the deadline on; the 64-bit computation gives this value, `Get`
fails at the same instants, and a later answer is never larger. -/
theorem ttl_countdown (Q : ExpirationQueue) (s s₀ : KvStore Q) (hs : Reachable s)
    (key : Bytes) (seconds : Int32) (t₀ : TimePoint)
    (hexpire : s.expire t₀ key seconds = .ok (true, s₀))
    (hstart : FitsClock t₀) (hfits : FitsClock (t₀ + seconds.toInt * nanosPerSecond))
    (earlier later : List (TimePoint × Op)) (t t' : TimePoint)
    (hclock : (t₀ :: (earlier.map Prod.fst ++ t :: (later.map Prod.fst ++ [t']))).Pairwise
      (· ≤ ·))
    (hkeep : ∀ op ∈ earlier ++ later, op.2.writes key = false) :
    ∃ replies s₁ remaining s₂ found s₂' replies' s₃ remaining' s₄,
      s₀.performAll earlier = .ok (replies, s₁) ∧
      s₁.ttl t key = .ok (remaining, s₂) ∧
      s₁.get t key = .ok (found, s₂') ∧
      s₂.performAll later = .ok (replies', s₃) ∧
      s₃.ttl t' key = .ok (remaining', s₄) ∧
      (t < t₀ + seconds.toInt * nanosPerSecond →
        remaining.toInt =
          ⌈((t₀ + seconds.toInt * nanosPerSecond - t : Int) / (1000000000 : Nat) : ℚ)⌉ ∧
        1 ≤ remaining.toInt ∧ remaining.toInt ≤ seconds.toInt) ∧
      (t₀ + seconds.toInt * nanosPerSecond ≤ t → remaining = -2) ∧
      (FitsClock t →
        remaining = ttlWord (expireAtWord (Int64.ofInt t₀) seconds) (Int64.ofInt t)) ∧
      remaining ≠ 0 ∧ (remaining = -2 ↔ found = none) ∧
      remaining'.toInt ≤ remaining.toInt := by
  obtain ⟨hpos, hwf₀, hdue₀⟩ := expire_succeeded hs.wellFormed hexpire
  obtain ⟨hbefore, hafter, ht, ht'⟩ := clock_split hclock
  have hseconds := Int32.toInt_lt seconds
  have hreach : t₀ + seconds.toInt * nanosPerSecond ≤ t + seconds.toInt * nanosPerSecond :=
    Int.add_le_add_right ht _
  have hmax : seconds.toInt * nanosPerSecond ≤ (2 ^ 31 - 1) * nanosPerSecond := by
    simp only [nanosPerSecond]
    omega
  obtain ⟨replies, s₁, hrun₁, hwf₁, hdue₁⟩ := hdue₀.performAll earlier hwf₀ hbefore
    fun op hmem => hkeep op (List.mem_append_left _ hmem)
  obtain ⟨remaining, s₂, found, s₂', httl, hget, hwf₂, hdue₂, hanswer, hfound⟩ :=
    hdue₁.answers hwf₁ (hreach.trans (Int.add_le_add_left hmax t))
  obtain ⟨replies', s₃, hrun₂, hwf₃, hdue₃⟩ := hdue₂.performAll later hwf₂ hafter
    fun op hmem => hkeep op (List.mem_append_right _ hmem)
  obtain ⟨remaining', s₄, -, -, httl', -, -, -, hanswer', -⟩ := hdue₃.answers hwf₃
    ((hreach.trans (Int.add_le_add_right ht' _)).trans (Int.add_le_add_left hmax t'))
  have hgone : remaining = -2 ↔ t₀ + seconds.toInt * nanosPerSecond ≤ t := by
    rw [← Int32.toInt_inj, hanswer]
    exact countdown_eq_neg_two_iff
  refine ⟨replies, s₁, remaining, s₂, found, s₂', replies', s₃, remaining', s₄, hrun₁, httl, hget,
    hrun₂, httl', ?_, hgone.mpr, ?_, ?_, hgone.trans hfound.symm, ?_⟩
  · intro hlt
    rw [hanswer]
    exact ⟨if_pos hlt, countdown_range hlt seconds.toInt hreach⟩
  · intro hfit
    rw [← Int32.toInt_inj, hanswer, toInt_ttlWord, toInt_expireAtWord hstart hfits,
      toInt_ofInt_of_fits hfit]
    rw [toInt_expireAtWord hstart hfits, toInt_ofInt_of_fits hfit]
    exact sub_le_iff_le_add'.mpr (hreach.trans (Int.add_le_add_left hmax t))
  · intro hzero
    exact countdown_ne_zero _ t (by rw [← hanswer, hzero]; rfl)
  · rw [hanswer, hanswer']
    exact countdown_antitone _ ht'

/-- A store with one key. -/
def singleKey : KvStore sortedExpirations := finalStore [(0, .set (ascii "k") (ascii "v"))]

/-- A key with two seconds to live, read half a second before its deadline and at it,
with a sweep and a read of another key in between. -/
theorem ttl_countdown_two_seconds :
    ∃ s₀, singleKey.expire 0 (ascii "k") 2 = .ok (true, s₀) ∧
      ∃ replies s₁ remaining s₂ replies' s₃ remaining' s₄,
        s₀.performAll [(0, .sweepExpired 8)] = .ok (replies, s₁) ∧
        s₁.ttl 1500000000 (ascii "k") = .ok (remaining, s₂) ∧
        s₂.performAll [(1600000000, .get (ascii "j"))] = .ok (replies', s₃) ∧
        s₃.ttl 2000000000 (ascii "k") = .ok (remaining', s₄) ∧
        1 ≤ remaining.toInt ∧ remaining'.toInt ≤ remaining.toInt := by
  have hlive : live? singleKey.data 0 (ascii "k") = some { value := ascii "v" } := by decide
  have hexpire := expire_live (reachable_finalStore _).wellFormed
    (show (0 : Int) < (2 : Int32).toInt by decide) hlive
  refine ⟨_, hexpire, ?_⟩
  obtain ⟨replies, s₁, remaining, s₂, -, -, replies', s₃, remaining', s₄, hrun₁, httl, -, hrun₂,
      httl', hbefore, -, -, -, -, hle⟩ :=
    ttl_countdown sortedExpirations _ _ (reachable_finalStore _) (ascii "k") 2 0 hexpire
      (by simp [FitsClock]) (by simp [FitsClock, nanosPerSecond])
      [(0, .sweepExpired 8)] [(1600000000, .get (ascii "j"))] 1500000000 2000000000
      (by decide) (by decide)
  exact ⟨replies, s₁, remaining, s₂, replies', s₃, remaining', s₄, hrun₁, httl, hrun₂, httl',
    (hbefore (by decide)).2.1, hle⟩

end TinyKv.KvStore
