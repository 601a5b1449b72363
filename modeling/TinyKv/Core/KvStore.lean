import TinyKv.Core.Bytes
import TinyKv.Foundation.PriorityQueue
import TinyKv.Foundation.KeyedMap

/-!
# The key-value store

`KVStore` keeps its entries in a hash map and indexes the ones with a deadline in
a min-heap. A heap record is never removed when its entry changes; the sweep
recognises a stale record by generation and deadline. The two key counters are
cached beside the map.

Unsigned decrements and assertions are checked: a decrement of zero and a failed
`assert` are outcomes of their own, not silently absorbed. Deadlines and clock
readings are counts of nanoseconds, the tick of `steady_clock`.
-/

namespace TinyKv

open Foundation

/-- A `steady_clock` reading in nanoseconds. -/
abbrev TimePoint := Int

/-- The number of nanoseconds in `std::chrono::seconds(1)`. -/
def nanosPerSecond : Int := 1000000000

/-- What can go wrong inside an operation without an exception being thrown. -/
inductive Fault where
  | assertion
  | underflow
deriving DecidableEq, Repr

/-- `assert(condition)`. -/
def check (condition : Bool) : Except Fault Unit :=
  if condition then .ok () else .error .assertion

/-- `--counter` on an unsigned counter. -/
def decrement : Nat → Except Fault Nat
  | 0 => .error .underflow
  | n + 1 => .ok n

/-- `a - b` on unsigned values. -/
def subtract (a b : Nat) : Except Fault Nat :=
  if b ≤ a then .ok (a - b) else .error .underflow

/-- `KVStore::Entry`. -/
structure Entry where
  value : Bytes
  expireAt : Option TimePoint := none
  generation : Nat := 0
deriving DecidableEq

/-- `KVStore::ExpirationRecord`. -/
structure ExpirationRecord where
  expireAt : TimePoint
  key : Bytes
  generation : Nat
deriving DecidableEq

/-- `KVStore::ExpirationCompare`. -/
def expirationCompare (lhs rhs : ExpirationRecord) : Bool :=
  decide (lhs.expireAt > rhs.expireAt)

/-- `KVStore::ExpirationQueue`: any implementation of the priority queue. -/
abbrev ExpirationQueue := PriorityQueue ExpirationRecord expirationCompare

/-- One such implementation: a list sorted by deadline. -/
def sortedExpirations : ExpirationQueue := PriorityQueue.sortedList ExpirationRecord.expireAt

/-- `MIN_STALE_RECORDS_FOR_REBUILD`. -/
def minStaleRecordsForRebuild : Nat := 1024

/-- `MIN_HEAP_RECORDS_FOR_REBUILD`. -/
def minHeapRecordsForRebuild : Nat := 4096

/-- The state of a `KVStore`. -/
structure KvStore (Q : ExpirationQueue) where
  data : KeyedMap Bytes Entry
  nextExpirationGeneration : Nat
  persistentKeys : Nat
  expiringKeys : Nat
  expirations : Q.Queue

/-- `KVStore::InnerStats`. -/
structure InnerStats where
  keys : Nat
  persistentKeys : Nat
  expiringKeys : Nat
deriving DecidableEq, Repr

/-- `KVStore::SweepResult`. -/
structure SweepResult where
  processed : Nat := 0
  removed : Nat := 0
  hasMoreExpired : Bool := false
  heapRebuilt : Bool := false
deriving DecidableEq, Repr

namespace KvStore

variable {Q : ExpirationQueue}

/-- A freshly constructed store. -/
def empty : KvStore Q where
  data := ∅
  nextExpirationGeneration := 0
  persistentKeys := 0
  expiringKeys := 0
  expirations := Q.make []

/-- `IsExpired`. -/
def isExpired (entry : Entry) (now : TimePoint) : Bool :=
  match entry.expireAt with
  | none => false
  | some t => decide (now ≥ t)

/-- `EraseEntryLocked`, given the key and the entry its iterator refers to. -/
def eraseEntryLocked (s : KvStore Q) (key : Bytes) (entry : Entry) :
    Except Fault (KvStore Q) := do
  if entry.expireAt.isSome then
    check (decide (s.expiringKeys > 0))
    let expiringKeys ← decrement s.expiringKeys
    pure { s with expiringKeys, data := s.data.erase key }
  else
    check (decide (s.persistentKeys > 0))
    let persistentKeys ← decrement s.persistentKeys
    pure { s with persistentKeys, data := s.data.erase key }

/-- The loop of `SweepExpiredLocked` with `budget` records left to process. -/
def sweepLoop (now : TimePoint) :
    Nat → SweepResult → KvStore Q → Except Fault (SweepResult × KvStore Q)
  | 0, result, s => pure (result, s)
  | budget + 1, result, s =>
      match Q.top? s.expirations with
      | none => pure (result, s)
      | some record =>
          if record.expireAt > now then
            pure (result, s)
          else
            let s := { s with expirations := Q.pop s.expirations }
            let result := { result with processed := result.processed + 1 }
            match s.data.lookup record.key with
            | none => sweepLoop now budget result s
            | some entry =>
                if entry.generation ≠ record.generation then
                  sweepLoop now budget result s
                else if entry.expireAt = none then
                  sweepLoop now budget result s
                else if entry.expireAt ≠ some record.expireAt then
                  sweepLoop now budget result s
                else do
                  let s ← s.eraseEntryLocked record.key entry
                  sweepLoop now budget { result with removed := result.removed + 1 } s

/-- The test for an expired record on top of the heap. -/
def hasExpiredTop (s : KvStore Q) (now : TimePoint) : Bool :=
  match Q.top? s.expirations with
  | none => false
  | some record => decide (record.expireAt ≤ now)

/-- `SweepExpiredLocked`. -/
def sweepExpiredLocked (s : KvStore Q) (now : TimePoint) (maxRecordsToProcess : Nat) :
    Except Fault (SweepResult × KvStore Q) := do
  let (result, s) ← sweepLoop now maxRecordsToProcess {} s
  pure ({ result with hasMoreExpired := s.hasExpiredTop now }, s)

/-- `Set`. -/
def set (s : KvStore Q) (key value : Bytes) : Except Fault (KvStore Q) :=
  match s.data.lookup key with
  | none =>
      pure { s with
        data := s.data.insert key { value }
        persistentKeys := s.persistentKeys + 1 }
  | some entry => do
      let updated : Entry := { value, expireAt := none, generation := entry.generation + 1 }
      if entry.expireAt.isSome then
        let expiringKeys ← decrement s.expiringKeys
        pure { s with
          expiringKeys
          persistentKeys := s.persistentKeys + 1
          data := s.data.insert key updated }
      else
        pure { s with data := s.data.insert key updated }

/-- `Get`; the answer `some v` is the return value `true` with the output `v`. -/
def get (s : KvStore Q) (now : TimePoint) (key : Bytes) :
    Except Fault (Option Bytes × KvStore Q) :=
  match s.data.lookup key with
  | none => pure (none, s)
  | some entry =>
      if isExpired entry now then do
        let s ← s.eraseEntryLocked key entry
        pure (none, s)
      else
        pure (some entry.value, s)

/-- `Del`. -/
def del (s : KvStore Q) (now : TimePoint) (key : Bytes) :
    Except Fault (Bool × KvStore Q) :=
  match s.data.lookup key with
  | none => pure (false, s)
  | some entry =>
      if isExpired entry now then do
        let s ← s.eraseEntryLocked key entry
        pure (false, s)
      else do
        let s ← s.eraseEntryLocked key entry
        pure (true, s)

/-- `Expire`. -/
def expire (s : KvStore Q) (now : TimePoint) (key : Bytes) (seconds : Int32) :
    Except Fault (Bool × KvStore Q) :=
  if seconds.toInt ≤ 0 then
    pure (false, s)
  else
    match s.data.lookup key with
    | none => pure (false, s)
    | some entry =>
        if isExpired entry now then do
          let s ← s.eraseEntryLocked key entry
          pure (false, s)
        else do
          let s ←
            if entry.expireAt.isNone then do
              check (decide (s.persistentKeys > 0))
              let persistentKeys ← decrement s.persistentKeys
              pure { s with persistentKeys, expiringKeys := s.expiringKeys + 1 }
            else
              pure s
          let expireAt := now + seconds.toInt * nanosPerSecond
          let generation := s.nextExpirationGeneration + 1
          pure (true, { s with
            data := s.data.insert key { entry with expireAt := some expireAt, generation }
            nextExpirationGeneration := generation
            expirations := Q.push s.expirations { expireAt, key, generation } })

/-- `std::chrono::ceil<std::chrono::seconds>` of a count of nanoseconds. -/
def ceilSeconds (remaining : Int) : Int := -((-remaining) / nanosPerSecond)

/-- `Ttl`. The narrowing `static_cast<int>` is `Int32.ofInt`. -/
def ttl (s : KvStore Q) (now : TimePoint) (key : Bytes) :
    Except Fault (Int32 × KvStore Q) :=
  match s.data.lookup key with
  | none => pure (-2, s)
  | some entry =>
      if isExpired entry now then do
        let s ← s.eraseEntryLocked key entry
        pure (-2, s)
      else
        match entry.expireAt with
        | none => pure (-1, s)
        | some expireAt => pure (Int32.ofInt (ceilSeconds (expireAt - now)), s)

/-- `Stats`. -/
def stats (s : KvStore Q) : InnerStats where
  keys := s.persistentKeys + s.expiringKeys
  persistentKeys := s.persistentKeys
  expiringKeys := s.expiringKeys

/-- `m_expirations.size()`. -/
def heapSize (s : KvStore Q) : Nat := Q.size s.expirations

/-- `ShouldRebuildExpirationHeapLocked`. -/
def shouldRebuildExpirationHeapLocked (s : KvStore Q) : Except Fault Bool :=
  if s.heapSize = 0 then
    pure false
  else if s.expiringKeys = 0 then
    pure true
  else if s.heapSize < minHeapRecordsForRebuild then
    pure false
  else do
    check (decide (s.heapSize ≥ s.expiringKeys))
    let staleRecords ← subtract s.heapSize s.expiringKeys
    pure (decide (staleRecords ≥ minStaleRecordsForRebuild) &&
      decide (staleRecords ≥ s.expiringKeys))

/-- The record `RebuildExpirationHeapLocked` collects for one map entry. -/
def recordOf (key : Bytes) (entry : Entry) : Option ExpirationRecord :=
  entry.expireAt.map fun expireAt => { expireAt, key, generation := entry.generation }

/-- The records `RebuildExpirationHeapLocked` collects, in map order. -/
def liveRecords (s : KvStore Q) : List ExpirationRecord :=
  s.data.entries.filterMap fun e => recordOf e.1 e.2

/-- `RebuildExpirationHeapLocked`. -/
def rebuildExpirationHeapLocked (s : KvStore Q) : Except Fault (KvStore Q) :=
  if s.expiringKeys = 0 then
    pure { s with expirations := Q.make [] }
  else do
    check (decide (s.liveRecords.length = s.expiringKeys))
    pure { s with expirations := Q.make s.liveRecords }

/-- `SweepExpired`. -/
def sweepExpired (s : KvStore Q) (now : TimePoint) (maxRecordsToProcess : Nat := 1024) :
    Except Fault (SweepResult × KvStore Q) := do
  let (result, s) ← s.sweepExpiredLocked now maxRecordsToProcess
  if ← s.shouldRebuildExpirationHeapLocked then
    let s ← s.rebuildExpirationHeapLocked
    pure ({ result with heapRebuilt := true, hasMoreExpired := s.hasExpiredTop now }, s)
  else
    pure (result, s)

/-- The public operations of the store with their arguments. -/
inductive Op where
  | set (key value : Bytes)
  | get (key : Bytes)
  | del (key : Bytes)
  | expire (key : Bytes) (seconds : Int32)
  | ttl (key : Bytes)
  | stats
  | sweepExpired (maxRecordsToProcess : Nat)
deriving DecidableEq

/-- What an operation returns to its caller. -/
inductive Reply where
  | done
  | value (found : Option Bytes)
  | flag (success : Bool)
  | seconds (remaining : Int32)
  | stats (counts : InnerStats)
  | swept (result : SweepResult)
deriving DecidableEq

/-- One operation performed at the clock reading `now`. -/
def perform (s : KvStore Q) (now : TimePoint) : Op → Except Fault (Reply × KvStore Q)
  | .set key value => do pure (.done, ← s.set key value)
  | .get key => do
      let (found, s) ← s.get now key
      pure (.value found, s)
  | .del key => do
      let (success, s) ← s.del now key
      pure (.flag success, s)
  | .expire key seconds => do
      let (success, s) ← s.expire now key seconds
      pure (.flag success, s)
  | .ttl key => do
      let (remaining, s) ← s.ttl now key
      pure (.seconds remaining, s)
  | .stats => pure (.stats s.stats, s)
  | .sweepExpired maxRecordsToProcess => do
      let (result, s) ← s.sweepExpired now maxRecordsToProcess
      pure (.swept result, s)

/-- A run: every operation reads its own clock value. -/
def performAll (s : KvStore Q) :
    List (TimePoint × Op) → Except Fault (List Reply × KvStore Q)
  | [] => pure ([], s)
  | (now, op) :: rest => do
      let (reply, s) ← s.perform now op
      let (replies, s) ← s.performAll rest
      pure (reply :: replies, s)

end KvStore

end TinyKv
