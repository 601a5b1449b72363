import TinyKv.Core.CommandGrammar
import TinyKv.Core.CommandExecutor
import TinyKv.Foundation.Machine

/-!
# What a GET response tells

A response to GET is `$nil` for an absent key and `$value` for a present one. The two
forms overlap in one value.
-/

namespace TinyKv

open Foundation KvStore

variable {Q : ExpirationQueue}

/-- A line that arrives, with the reading of the clock when it is executed. -/
structure Request where
  now : TimePoint
  line : Bytes

namespace Store

open CommandExecutor CommandParser

/-- The stores under requests: each line is parsed and executed. -/
def requests : Machine (Store Q) Request :=
  ⟨fun store request => (store.execute request.now (parseCommand request.line)).2⟩

/-- The response to `GET key`. -/
def getReply (store : Store Q) (now : TimePoint) (key : Bytes) : Bytes :=
  (store.execute now { type := .get, key }).1

/-- The value of a key that is present and not expired. -/
def valueAt (store : Store Q) (now : TimePoint) (key : Bytes) : Option Bytes :=
  (live? store.state.data now key).map Entry.value

/-- A response to GET, read by the conventions of the protocol. -/
def readReply (reply : Bytes) : Option Bytes :=
  if reply = ascii "$nil" then none else some (reply.drop 1)

/-- The response to `GET key` is `$nil` exactly when the key is absent or expired, and
it determines the value. -/
def Identified (store : Store Q) (now : TimePoint) (key : Bytes) : Prop :=
  (store.getReply now key = ascii "$nil" ↔ live? store.state.data now key = none) ∧
    readReply (store.getReply now key) = store.valueAt now key

theorem getReply_eq (store : Store Q) (now : TimePoint) (key : Bytes) :
    store.getReply now key =
      match store.valueAt now key with
      | some value => ascii "$" ++ value
      | none => ascii "$nil" := by
  obtain ⟨state, hget, -, -⟩ := get_spec store.wellFormed now key
  have hrun : CommandExecutor.execute store.state now { type := .get, key } =
      .ok (match store.valueAt now key with
        | some value => ascii "$" ++ value
        | none => ascii "$nil", state) := by
    simp only [CommandExecutor.execute, hget]
    cases hlive : live? store.state.data now key with
    | none => simp [valueAt, hlive]
    | some entry => simp [valueAt, hlive]
  rw [execute_eq] at hrun
  simp only [Except.ok.injEq, Prod.mk.injEq] at hrun
  exact hrun.1

theorem valueAt_eq_none_iff {store : Store Q} {now : TimePoint} {key : Bytes} :
    store.valueAt now key = none ↔ live? store.state.data now key = none :=
  Option.map_eq_none_iff

/-- A response is ambiguous for one value only. -/
theorem identified_iff (store : Store Q) (now : TimePoint) (key : Bytes) :
    store.Identified now key ↔ store.valueAt now key ≠ some (ascii "nil") := by
  unfold Identified
  rw [getReply_eq, ← valueAt_eq_none_iff]
  cases store.valueAt now key with
  | none => simp [readReply]
  | some value =>
      have hmark : ascii "$" ++ value = ascii "$nil" ↔ value = ascii "nil" :=
        List.append_right_inj (ascii "$")
      simp only [hmark, reduceCtorEq, iff_false, ne_eq, Option.some.injEq, readReply]
      constructor
      · exact And.left
      · intro hne
        rw [if_neg hne]
        exact ⟨hne, rfl⟩

/-- No stored value is `nil`. -/
def NilFree (store : Store Q) : Prop :=
  ∀ key entry, store.state.data.lookup key = some entry → entry.value ≠ ascii "nil"

theorem nilFree_empty : (empty : Store Q).NilFree := by
  intro key entry h
  cases h

/-- Only SET brings a value into the store. -/
theorem NilFree.step {store : Store Q} (h : store.NilFree) {request : Request}
    (hset : ¬ ((parseCommand request.line).type = .set ∧
      (parseCommand request.line).value = ascii "nil")) :
    (requests.step store request).NilFree := by
  intro key entry hlook
  obtain ⟨response, state, hrun, -, hvalues, -⟩ :=
    execute_spec store.wellFormed request.now (parseCommand request.line)
  rw [execute_eq] at hrun
  simp only [Except.ok.injEq, Prod.mk.injEq] at hrun
  obtain ⟨-, rfl⟩ := hrun
  obtain ⟨old, hold, heq⟩ | heq := hvalues key entry hlook
  · rw [heq]
    exact h key old hold
  · rw [heq]
    intro hnil
    apply hset
    refine ⟨?_, hnil⟩
    -- every other command has an empty value
    have hfields := (parses_parseCommand request.line).fields
    unfold CommandGrammar.Fields at hfields
    generalize parseCommand request.line = cmd at hfields hnil ⊢
    cases htype : cmd.type with
    | set => rfl
    | get | del | ttl =>
        rw [htype] at hfields
        rw [hfields.2.1] at hnil
        exact absurd hnil (by decide)
    | expire =>
        rw [htype] at hfields
        rw [hfields.2] at hnil
        exact absurd hnil (by decide)
    | ping | stats | quit | help | unknown =>
        rw [htype] at hfields
        rw [hfields.2.1] at hnil
        exact absurd hnil (by decide)

/-- In every reachable store, the response to `GET key` identifies absence and the value
exactly when the value is not `nil`; without a SET of this value it always does. -/
theorem identified_iff_not_nil (requested : List Request) :
    let store := requests.run (empty : Store Q) requested
    (∀ now key, store.Identified now key ↔ store.valueAt now key ≠ some (ascii "nil")) ∧
      ((∀ request ∈ requested, ¬ ((parseCommand request.line).type = .set ∧
          (parseCommand request.line).value = ascii "nil")) →
        ∀ now key, store.Identified now key) := by
  intro store
  refine ⟨identified_iff store, fun hrequested now key => (identified_iff store now key).mpr ?_⟩
  have hfree : store.NilFree :=
    requests.run_invariant (fun _ h request hmem => h.step (hrequested request hmem)) nilFree_empty
  intro hvalue
  obtain ⟨entry, hlive, heq⟩ := Option.map_eq_some_iff.mp hvalue
  exact hfree key entry (Option.filter_eq_some_iff.mp hlive).1 heq

/-- The value `nil` is answered like an absent key. -/
theorem not_identified_nil :
    let store := requests.run (empty : Store sortedExpirations) [⟨0, ascii "SET k nil"⟩]
    store.valueAt 1 (ascii "k") = some (ascii "nil") ∧
      store.getReply 1 (ascii "k") = ascii "$nil" ∧ ¬ store.Identified 1 (ascii "k") := by
  refine ⟨by decide, by decide, ?_⟩
  rintro ⟨habsent, -⟩
  exact absurd (habsent.mp (by decide)) (by decide)

end Store

end TinyKv
