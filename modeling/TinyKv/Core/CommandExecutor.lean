import TinyKv.Core.CommandParser
import TinyKv.Core.FrameCodec
import TinyKv.Core.KvStoreRuns

/-!
# The command executor

`CommandExecutor::Execute` maps a parsed command to one store operation and its
response text. On a well-formed store it never faults, so that over the stores that
carry their invariant it is a total function.
-/

namespace TinyKv

open Foundation KvStore

variable {Q : ExpirationQueue}

namespace CommandExecutor

/-- The text of the HELP response. -/
def helpText : Bytes :=
  ascii ("Supported commands:\n" ++
    "  PING\n" ++
    "  SET <key> <value>\n" ++
    "  GET <key>\n" ++
    "  DEL <key>\n" ++
    "  EXPIRE <key> <seconds>\n" ++
    "  TTL <key>\n" ++
    "  STATS\n" ++
    "  HELP\n" ++
    "  QUIT")

/-- The STATS response of the executor. -/
def statsText (stats : InnerStats) : Bytes :=
  ascii "+keys=" ++ natText stats.keys ++ ascii ",persistent=" ++ natText stats.persistentKeys ++
    ascii ",expiring=" ++ natText stats.expiringKeys

/-- `Execute`; `now` is the reading of the clock by the store operation. -/
def execute (store : KvStore Q) (now : TimePoint) (command : Command) :
    Except Fault (Bytes × KvStore Q) :=
  match command.type with
  | .ping => pure (ascii "+PONG", store)
  | .set => do
      let store ← store.set command.key command.value
      pure (ascii "+OK", store)
  | .get => do
      let (found, store) ← store.get now command.key
      match found with
      | some value => pure (ascii "$" ++ value, store)
      | none => pure (ascii "$nil", store)
  | .del => do
      let (success, store) ← store.del now command.key
      pure (if success then ascii "+OK" else ascii "$nil", store)
  | .expire => do
      let (success, store) ← store.expire now command.key command.seconds
      pure (if success then ascii "+OK" else ascii "$nil", store)
  | .ttl => do
      let (ttl, store) ← store.ttl now command.key
      pure (ascii "$" ++ intText ttl.toInt, store)
  | .stats => pure (statsText store.stats, store)
  | .quit => pure (ascii "+BYE", store)
  | .help => pure (helpText, store)
  | .unknown => pure (ascii "-ERR unknown command", store)

/-! ### Where values and responses come from -/

/-- Every value of `after` was in `before` under the same key, or is `value`. -/
def ValuesFrom (before : KeyedMap Bytes Entry) (value : Bytes)
    (after : KeyedMap Bytes Entry) : Prop :=
  ∀ key entry, after.lookup key = some entry →
    (∃ old, before.lookup key = some old ∧ entry.value = old.value) ∨ entry.value = value

theorem ValuesFrom.refl (data : KeyedMap Bytes Entry) (value : Bytes) :
    ValuesFrom data value data :=
  fun _ entry h => .inl ⟨entry, h, rfl⟩

theorem ValuesFrom.pruned {now : TimePoint} {before after : KeyedMap Bytes Entry}
    (h : Pruned now before after) (value : Bytes) : ValuesFrom before value after := by
  intro key entry hlook
  obtain heq | ⟨hnone, -⟩ := h key
  · exact .inl ⟨entry, heq ▸ hlook, rfl⟩
  · rw [hnone] at hlook
    cases hlook

theorem ValuesFrom.erase (data : KeyedMap Bytes Entry) (key value : Bytes) :
    ValuesFrom data value (data.erase key) := by
  intro k entry hlook
  rw [KeyedMap.lookup_erase_eq] at hlook
  split at hlook
  · cases hlook
  · exact .inl ⟨entry, hlook, rfl⟩

theorem ValuesFrom.insert {data : KeyedMap Bytes Entry} {key value : Bytes} {new : Entry}
    (h : (∃ old, data.lookup key = some old ∧ new.value = old.value) ∨ new.value = value) :
    ValuesFrom data value (data.insert key new) := by
  exact KeyedMap.forall_lookup_insert h fun k entry _ hlook => .inl ⟨entry, hlook, rfl⟩

/-- A response is short, a STATS text, or a stored value after its marker. -/
inductive ResponseFrom (data : KeyedMap Bytes Entry) (command : Command) (response : Bytes) :
    Prop where
  | short (h : response.length ≤ 256)
  | stats (h : command.type = .stats)
  | stored {key : Bytes} {entry : Entry} (hlook : data.lookup key = some entry)
      (h : response = ascii "$" ++ entry.value)

theorem length_ascii (text : String) : (ascii text).length = text.length := by
  simp [ascii, String.length_toList]

theorem length_intText_int32 (n : Int32) : (intText n.toInt).length ≤ 11 := by
  have hlt := n.toInt_lt
  have hge := n.le_toInt
  rw [intText, length_ascii]
  cases hn : n.toInt with
  | ofNat m =>
      rw [hn, Int.ofNat_eq_natCast] at hlt
      change (Nat.repr m).length ≤ 11
      have : (Nat.repr m).length ≤ 10 := by
        rw [Nat.length_repr_le_iff (by omega)]
        omega
      omega
  | negSucc m =>
      rw [hn, Int.negSucc_eq] at hge
      change ("-" ++ Nat.repr (m + 1)).length ≤ 11
      have : (Nat.repr (m + 1)).length ≤ 10 := by
        rw [Nat.length_repr_le_iff (by omega)]
        omega
      rw [String.length_append]
      change 1 + _ ≤ 11
      omega

/-- One command on a well-formed store. -/
theorem execute_spec {store : KvStore Q} (wf : WellFormed store) (now : TimePoint)
    (command : Command) :
    ∃ response store', execute store now command = .ok (response, store') ∧ WellFormed store' ∧
      ValuesFrom store.data command.value store'.data ∧
      ResponseFrom store.data command response := by
  cases htype : command.type with
  | ping => exact ⟨_, store, by simp only [execute, htype]; rfl, wf, .refl _ _,
      .short (by decide)⟩
  | set =>
      obtain ⟨store', generation, hrun, hwf, hdata⟩ :=
        set_spec wf command.key command.value
      refine ⟨ascii "+OK", store', by simp [execute, htype, hrun], hwf, ?_, .short (by decide)⟩
      rw [hdata]
      exact .insert (.inr rfl)
  | get =>
      obtain ⟨store', hrun, hwf, hpruned⟩ := get_spec wf now command.key
      cases hlive : live? store.data now command.key with
      | none =>
          refine ⟨ascii "$nil", store', ?_, hwf, .pruned hpruned _, .short (by decide)⟩
          simp [execute, htype, hrun, hlive]
      | some entry =>
          refine ⟨ascii "$" ++ entry.value, store', ?_, hwf, .pruned hpruned _, ?_⟩
          · simp [execute, htype, hrun, hlive]
          · exact .stored (Option.filter_eq_some_iff.mp hlive).1 rfl
  | del =>
      obtain ⟨store', hrun, hwf, hdata⟩ := del_spec wf now command.key
      refine ⟨if (live? store.data now command.key).isSome then ascii "+OK" else ascii "$nil",
        store', by simp only [execute, htype, hrun]; rfl, hwf, ?_, .short ?_⟩
      · rw [hdata]
        exact .erase _ _ _
      · split <;> decide
  | expire =>
      by_cases hrefused : command.seconds.toInt ≤ 0 ∨ live? store.data now command.key = none
      · obtain ⟨store', hrun, hwf, hpruned⟩ := expire_refused wf hrefused
        exact ⟨ascii "$nil", store', by simp only [execute, htype, hrun]; rfl, hwf,
          .pruned hpruned _, .short (by decide)⟩
      · obtain ⟨hpos, hlive⟩ := not_or.mp hrefused
        obtain ⟨entry, hentry⟩ := Option.ne_none_iff_exists'.mp hlive
        have hlook : store.data.lookup command.key = some entry :=
          (Option.filter_eq_some_iff.mp hentry).1
        exact ⟨ascii "+OK", _,
          by simp only [execute, htype, expire_live wf (not_le.mp hpos) hentry]; rfl,
          wf.expired now command.seconds hlook, .insert (.inl ⟨entry, hlook, rfl⟩),
          .short (by decide)⟩
  | ttl =>
      obtain ⟨store', hrun, hwf, hpruned⟩ := ttl_spec wf now command.key
      let ttl := ((live? store.data now command.key).map (remainingSeconds now)).getD (-2)
      refine ⟨ascii "$" ++ intText ttl.toInt, store', by simp only [execute, htype, hrun]; rfl,
        hwf, .pruned hpruned _, .short ?_⟩
      rw [List.length_append]
      have := length_intText_int32 ttl
      have hmark : (ascii "$").length = 1 := rfl
      omega
  | stats => exact ⟨_, store, by simp only [execute, htype]; rfl, wf, .refl _ _, .stats htype⟩
  | quit => exact ⟨_, store, by simp only [execute, htype]; rfl, wf, .refl _ _,
      .short (by decide)⟩
  | help => exact ⟨_, store, by simp only [execute, htype]; rfl, wf, .refl _ _,
      .short (by decide +kernel)⟩
  | unknown => exact ⟨_, store, by simp only [execute, htype]; rfl, wf, .refl _ _,
      .short (by decide)⟩

end CommandExecutor

/-- A store together with its invariant. -/
structure Store (Q : ExpirationQueue) where
  state : KvStore Q
  wellFormed : WellFormed state

namespace Store

open CommandExecutor

/-- The store of a fresh server. -/
def empty : Store Q := ⟨KvStore.empty, wellFormed_empty⟩

theorem execute_total (store : Store Q) (now : TimePoint) (command : Command) (fault : Fault) :
    CommandExecutor.execute store.state now command ≠ .error fault := by
  intro h
  obtain ⟨response, store', hrun, -⟩ := execute_spec store.wellFormed now command
  rw [h] at hrun
  cases hrun

theorem execute_wellFormed (store : Store Q) {now : TimePoint} {command : Command}
    {response : Bytes} {state : KvStore Q}
    (h : CommandExecutor.execute store.state now command = .ok (response, state)) :
    WellFormed state := by
  obtain ⟨response', state', hrun, hwf, -⟩ := execute_spec store.wellFormed now command
  rw [h] at hrun
  cases hrun
  exact hwf

/-- `Execute` on a store that carries its invariant. -/
def execute (store : Store Q) (now : TimePoint) (command : Command) : Bytes × Store Q :=
  match h : CommandExecutor.execute store.state now command with
  | .ok (response, state) => (response, ⟨state, store.execute_wellFormed h⟩)
  | .error fault => absurd h (store.execute_total now command fault)

theorem execute_eq (store : Store Q) (now : TimePoint) (command : Command) :
    CommandExecutor.execute store.state now command =
      .ok ((store.execute now command).1, (store.execute now command).2.state) := by
  rw [execute]
  split
  · next h => exact h
  · next fault h => exact absurd h (store.execute_total now command fault)

/-- A GET of a live entry answers with its value and changes nothing. -/
theorem execute_get {store : Store Q} {now : TimePoint} {command : Command} {entry : Entry}
    (htype : command.type = .get)
    (hlook : store.state.data.lookup command.key = some entry)
    (hlive : isExpired entry now = false) :
    store.execute now command = (ascii "$" ++ entry.value, store) := by
  have hrun : CommandExecutor.execute store.state now command =
      .ok (ascii "$" ++ entry.value, store.state) := by
    simp [CommandExecutor.execute, htype, KvStore.get, hlook, hlive]
  rw [execute_eq] at hrun
  simp only [Except.ok.injEq, Prod.mk.injEq] at hrun
  obtain ⟨hresponse, hstate⟩ := hrun
  cases store with
  | mk state wellFormed =>
      refine Prod.ext hresponse ?_
      generalize (Store.mk state wellFormed).execute now command = result at hstate
      obtain ⟨response, after⟩ := result
      cases after
      cases hstate
      rfl

/-- A SET leaves its value under its key, without a deadline. -/
theorem lookup_execute_set {store : Store Q} {now : TimePoint} {command : Command}
    (htype : command.type = .set) :
    ∃ generation, (store.execute now command).2.state.data.lookup command.key =
      some { value := command.value, expireAt := none, generation } := by
  obtain ⟨state, generation, hset, -, hdata⟩ :=
    set_spec store.wellFormed command.key command.value
  have hrun : CommandExecutor.execute store.state now command = .ok (ascii "+OK", state) := by
    simp [CommandExecutor.execute, htype, hset]
  rw [execute_eq] at hrun
  simp only [Except.ok.injEq, Prod.mk.injEq] at hrun
  obtain ⟨-, rfl⟩ := hrun
  exact ⟨generation, by rw [hdata, AList.lookup_insert]⟩

/-- Every stored value came in a frame, with `SET`, a key and two separators. -/
def Small (store : Store Q) : Prop :=
  ∀ key entry, store.state.data.lookup key = some entry →
    entry.value.length + 6 ≤ FrameCodec.maxFrameSize

theorem small_empty : (empty : Store Q).Small := by
  intro key entry h
  cases h

/-- Commands out of frames keep the stored values small, and all responses but that of
STATS fit a frame. -/
theorem Small.execute {store : Store Q} (h : store.Small) (now : TimePoint) {payload : Bytes}
    (hfits : payload.length ≤ FrameCodec.maxFrameSize) :
    (store.execute now (CommandParser.parseCommand payload)).2.Small ∧
      ((CommandParser.parseCommand payload).type = .stats ∨
        (store.execute now (CommandParser.parseCommand payload)).1.length ≤
          FrameCodec.maxFrameSize) := by
  obtain ⟨response, state, hrun, -, hvalues, hresponse⟩ :=
    execute_spec store.wellFormed now (CommandParser.parseCommand payload)
  rw [execute_eq] at hrun
  simp only [Except.ok.injEq, Prod.mk.injEq] at hrun
  obtain ⟨rfl, rfl⟩ := hrun
  constructor
  · intro key entry hlook
    obtain ⟨old, hold, heq⟩ | heq := hvalues key entry hlook
    · rw [heq]
      exact h key old hold
    · obtain hnil | hlen := CommandParser.shortValue_parseCommand payload
      · rw [heq, hnil]
        decide
      · rw [heq]
        omega
  · cases hresponse with
    | short hshort =>
        right
        simp only [FrameCodec.maxFrameSize]
        omega
    | stats hstats => exact .inl hstats
    | stored hlook heq =>
        right
        have hsmall := h _ _ hlook
        rw [heq, List.length_append]
        have hmark : (ascii "$").length = 1 := rfl
        omega

end Store

end TinyKv
