import TinyKv.Core.CommandExecutor
import TinyKv.Core.KvStoreRefinement

/-!
# The executor over the reference map

`Execute` performs at most one operation of the store and turns its result into text. The
same texts over the map with deadlines give the protocol its meaning without a store: on
every store that represents the map the two executors answer alike and keep representing.
-/

namespace TinyKv

open Foundation KvStore

variable {Q : ExpirationQueue}

/-- The store operation of a command, if the command has one. -/
def Command.op? (command : Command) : Option Op :=
  match command.type with
  | .set => some (.set command.key command.value)
  | .get => some (.get command.key)
  | .del => some (.del command.key)
  | .expire => some (.expire command.key command.seconds)
  | .ttl => some (.ttl command.key)
  | .ping | .stats | .quit | .help | .unknown => none

/-- The text a client reads for the answer of an operation. -/
def KvStore.Answer.text : Answer → Bytes
  | .done => ascii "+OK"
  | .value none => ascii "$nil"
  | .value (some bytes) => ascii "$" ++ bytes
  | .flag success => if success then ascii "+OK" else ascii "$nil"
  | .seconds remaining => ascii "$" ++ intText remaining

/-- The text of a command without an operation; that of STATS depends on counters. -/
def CommandType.text : CommandType → Bytes
  | .ping => ascii "+PONG"
  | .quit => ascii "+BYE"
  | .help => CommandExecutor.helpText
  | .unknown => ascii "-ERR unknown command"
  | .set | .get | .del | .expire | .ttl | .stats => []

/-- One command over the reference map: the response and the map after it. -/
def KvStore.Reference.execute (ref : Reference) (now : TimePoint) (command : Command) :
    Bytes × Reference :=
  match command.op? with
  | none => (command.type.text, ref)
  | some op => (((ref.perform now op).1.map Answer.text).getD [], (ref.perform now op).2)

namespace CommandExecutor

/-- A command with an operation performs it and tells its answer. -/
theorem execute_op {command : Command} {op : Op} (hop : command.op? = some op)
    {store store' : KvStore Q} {now : TimePoint} {reply : Reply}
    (hrun : store.perform now op = .ok (reply, store')) :
    execute store now command = .ok ((reply.answer?.map Answer.text).getD [], store') := by
  unfold Command.op? at hop
  cases htype : command.type with
  | set =>
      rw [htype] at hop
      cases hop
      cases hset : store.set command.key command.value with
      | error fault =>
          rw [perform, hset] at hrun
          cases hrun
      | ok after =>
          simp only [perform, hset, ok_bind, KvStore.pure_eq_ok] at hrun
          cases hrun
          simp [execute, htype, hset, Reply.answer?, Answer.text]
  | get =>
      rw [htype] at hop
      cases hop
      cases hget : store.get now command.key with
      | error fault =>
          rw [perform, hget] at hrun
          cases hrun
      | ok after =>
          obtain ⟨found, after⟩ := after
          simp only [perform, hget, ok_bind, KvStore.pure_eq_ok] at hrun
          cases hrun
          cases found with
          | none => simp [execute, htype, hget, Reply.answer?, Answer.text]
          | some value => simp [execute, htype, hget, Reply.answer?, Answer.text]
  | del =>
      rw [htype] at hop
      cases hop
      cases hdel : store.del now command.key with
      | error fault =>
          rw [perform, hdel] at hrun
          cases hrun
      | ok after =>
          obtain ⟨success, after⟩ := after
          simp only [perform, hdel, ok_bind, KvStore.pure_eq_ok] at hrun
          cases hrun
          simp [execute, htype, hdel, Reply.answer?, Answer.text]
  | expire =>
      rw [htype] at hop
      cases hop
      cases hexpire : store.expire now command.key command.seconds with
      | error fault =>
          rw [perform, hexpire] at hrun
          cases hrun
      | ok after =>
          obtain ⟨success, after⟩ := after
          simp only [perform, hexpire, ok_bind, KvStore.pure_eq_ok] at hrun
          cases hrun
          simp [execute, htype, hexpire, Reply.answer?, Answer.text]
  | ttl =>
      rw [htype] at hop
      cases hop
      cases httl : store.ttl now command.key with
      | error fault =>
          rw [perform, httl] at hrun
          cases hrun
      | ok after =>
          obtain ⟨remaining, after⟩ := after
          simp only [perform, httl, ok_bind, KvStore.pure_eq_ok] at hrun
          cases hrun
          simp [execute, htype, httl, Reply.answer?, Answer.text]
  | ping | stats | quit | help | unknown =>
      rw [htype] at hop
      cases hop

/-- A command without an operation leaves the store alone. -/
theorem execute_plain {command : Command} (hop : command.op? = none) (store : KvStore Q)
    (now : TimePoint) :
    ∃ response, execute store now command = .ok (response, store) ∧
      (command.type ≠ .stats → response = command.type.text) := by
  unfold Command.op? at hop
  cases htype : command.type with
  | ping | quit | help | unknown =>
      exact ⟨_, by simp only [execute, htype]; rfl, fun _ => rfl⟩
  | stats => exact ⟨_, by simp only [execute, htype]; rfl, fun h => absurd rfl h⟩
  | set | get | del | expire | ttl =>
      rw [htype] at hop
      cases hop

end CommandExecutor

/-- On a store that represents the map a command is answered as the map answers it, and the
store represents the map after it. -/
theorem Store.execute_refines {store : Store Q} {ref : Reference} {now : TimePoint}
    (h : Represents now store.state.data ref) (command : Command) :
    (command.type ≠ .stats →
      (store.execute now command).1 = (ref.execute now command).1) ∧
      Represents now (store.execute now command).2.state.data (ref.execute now command).2 := by
  have hexecute := store.execute_eq now command
  unfold Reference.execute
  cases hop : command.op? with
  | none =>
      obtain ⟨response, hplain, htext⟩ :=
        CommandExecutor.execute_plain hop store.state now
      rw [hplain] at hexecute
      simp only [Except.ok.injEq, Prod.mk.injEq] at hexecute
      obtain ⟨rfl, hstate⟩ := hexecute
      exact ⟨htext, hstate ▸ h⟩
  | some op =>
      obtain ⟨reply, state, hrun, -, hanswer, hrep⟩ := perform_refines store.wellFormed h op
      rw [CommandExecutor.execute_op hop hrun] at hexecute
      simp only [Except.ok.injEq, Prod.mk.injEq] at hexecute
      obtain ⟨hresponse, rfl⟩ := hexecute
      refine ⟨fun _ => ?_, hrep⟩
      rw [← hresponse, hanswer]

end TinyKv
