import TinyKv.Core.KvStoreRefinement
import TinyKv.Foundation.Linearizability

/-!
# The store used by many threads

Every operation of `KVStore` takes `m_mutex`, reads the clock and then works on the maps.
Any number of sub reactors and the sweeper call it. However their calls interleave, the
answers are those of the map with deadlines, as if each call had been performed at one
moment between its beginning and its end.
-/

namespace TinyKv.KvStore

open Foundation

variable {ι : Type*} {Q : ExpirationQueue}

/-- The operations as a transducer; a fault leaves the store alone. -/
def transducer (Q : ExpirationQueue) :
    Transducer (KvStore Q) (TimePoint × Op) (Except Fault Reply) where
  step s e :=
    match s.perform e.1 e.2 with
    | .ok (reply, s') => (.ok reply, s')
    | .error fault => (.error fault, s)

/-- What `Expire` answers before it takes the mutex. -/
def early : Op → Option (Except Fault Reply)
  | .expire _ seconds => if seconds.toInt ≤ 0 then some (.ok (.flag false)) else none
  | _ => none

theorem early_eq {op : Op} {answer : Except Fault Reply} (h : early op = some answer)
    (s : KvStore Q) (now : TimePoint) : (transducer Q).step s (now, op) = (answer, s) := by
  cases op with
  | expire key seconds =>
      rw [early] at h
      split at h
      case isTrue hle =>
        have hexpire : s.expire now key seconds = .ok (false, s) := by
          simp only [expire, hle, if_true]
          rfl
        cases h
        simp only [transducer, perform, hexpire]
        rfl
      case isFalse => cases h
  | set key value | get key | del key | ttl key | stats | sweepExpired budget => cases h

/-- `KVStore` with `m_mutex`. `Set` and `Stats` do not look at the clock reading. -/
def guarded (Q : ExpirationQueue) :
    GuardedObject (KvStore Q) TimePoint Op (Except Fault Reply) where
  object := transducer Q
  early := early
  early_eq := early_eq

/-- The threads that share a store. -/
abbrev Shared (ι : Type*) (Q : ExpirationQueue) :=
  Monitor ι (KvStore Q) TimePoint Op (Except Fault Reply)

/-- An empty store, before the first call. -/
def Shared.start (ι : Type*) (Q : ExpirationQueue) (clock : TimePoint) : Shared ι Q :=
  { object := KvStore.empty, clock }

/-- What a caller can compare with the reference, unless there was a fault. -/
def observed : Except Fault Reply → Option Answer
  | .ok reply => reply.answer?
  | .error _ => none

/-- The reference as a transducer. -/
def Reference.transducer : Transducer Reference (TimePoint × Op) (Option Answer) where
  step ref e := ref.perform e.1 e.2

/-- One operation succeeds on a well-formed store, and the reference follows it. -/
theorem transducer_step {s : KvStore Q} {ref : Reference} {now : TimePoint} (wf : WellFormed s)
    (h : Represents now s.data ref) (op : Op) :
    ∃ reply s', (transducer Q).step s (now, op) = (.ok reply, s') ∧ WellFormed s' ∧
      reply.answer? = (ref.perform now op).1 ∧
      Represents now s'.data (ref.perform now op).2 := by
  obtain ⟨reply, s', hrun, hwf, hanswer, hrep⟩ := perform_refines wf h op
  refine ⟨reply, s', ?_, hwf, hanswer, hrep⟩
  simp only [transducer, hrun]

/-- No operation on a well-formed store faults. -/
theorem transducer_ok (s : KvStore Q) (wf : WellFormed s) (e : TimePoint × Op) :
    (∃ reply, ((transducer Q).step s e).1 = .ok reply) ∧
      WellFormed ((transducer Q).step s e).2 := by
  obtain ⟨reply, s', hrun, hwf⟩ := perform_wellFormed wf e.1 e.2
  simp only [transducer, hrun]
  exact ⟨⟨reply, rfl⟩, hwf⟩

/-- In every interleaving of the calls of any number of threads, no operation faults, and
the answers are those of the map with deadlines. -/
theorem shared_linearizable [DecidableEq ι] (Q : ExpirationQueue) (clock : TimePoint)
    (actions : List (Monitor.Action ι TimePoint Op)) :
    let m := (Monitor.machine (guarded Q)).run (Shared.start ι Q clock) actions
    (∀ id moment answer, .ret id moment answer ∈ m.history → ∃ reply, answer = .ok reply) ∧
      Linearization Reference.transducer TtlMap.empty (m.history.map (HistoryEvent.map observed))
        (m.order.map (Effect.map observed)) := by
  intro m
  have hlinear : Linearization (transducer Q) KvStore.empty m.history m.order :=
    Monitor.linearizable (guarded Q) KvStore.empty clock actions
  have hanswers := hlinear.answers (P := fun answer => ∃ reply, answer = .ok reply)
    transducer_ok wellFormed_empty
  constructor
  · intro id moment answer hret
    obtain ⟨e, he, -, rfl, -⟩ := hlinear.returned id moment answer hret
    exact hanswers e he
  · apply hlinear.refines (R := fun now s ref => WellFormed s ∧ Represents now s.data ref)
    · rintro t now s ref hle ⟨wf, h⟩
      exact ⟨wf, h.later hle⟩
    · rintro now s ref ⟨wf, h⟩ op
      obtain ⟨reply, s', hstep, hwf, hanswer, hrep⟩ := transducer_step wf h op
      rw [hstep]
      exact ⟨hanswer, hwf, hrep⟩
    · exact fun t => ⟨wellFormed_empty, Represents.empty t⟩

end TinyKv.KvStore
