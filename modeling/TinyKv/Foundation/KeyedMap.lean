import Mathlib.Data.List.AList

/-!
# Counting and updating the entries of a keyed map

A keyed map is an association list without repeated keys. The counting lemmas
follow one entry through an insertion or an erasure, which is what a cached
counter beside the map has to mirror.
-/

namespace TinyKv.Foundation

/-- A finite map from keys to values of one type. -/
abbrev KeyedMap (α β : Type) := AList (fun _ : α => β)

namespace KeyedMap

variable {α β : Type} [DecidableEq α]

/-- The number of entries whose value satisfies `p`. -/
def countWhere (p : β → Bool) (m : KeyedMap α β) : Nat :=
  m.entries.countP fun e => p e.2

/-- The number of entries. -/
def size (m : KeyedMap α β) : Nat := m.entries.length

omit [DecidableEq α] in
theorem size_eq_countWhere_add (p : β → Bool) (m : KeyedMap α β) :
    size m = countWhere p m + countWhere (fun b => !p b) m := by
  simpa [size, countWhere, Function.comp_def] using
    List.length_eq_countP_add_countP (l := m.entries) (fun e => p e.2)

omit [DecidableEq α] in
/-- A property that is the disjoint union of two others. -/
theorem countWhere_eq_add {p q r : β → Bool}
    (h : ∀ b, (p b).toNat = (q b).toNat + (r b).toNat) (m : KeyedMap α β) :
    countWhere p m = countWhere q m + countWhere r m := by
  have htoNat (b : Bool) : (if b = true then 1 else 0) = b.toNat := by
    cases b with
    | true => rfl
    | false => rfl
  simp only [countWhere]
  induction m.entries with
  | nil => rfl
  | cons e rest ih =>
      have hentry := h e.2
      simp only [List.countP_cons, ih, htoNat]
      omega

theorem mem_entries_iff_lookup {m : KeyedMap α β} {a : α} {b : β} :
    ⟨a, b⟩ ∈ m.entries ↔ m.lookup a = some b :=
  (List.mem_dlookup_iff m.nodupKeys).symm

theorem mem_iff_exists_lookup {m : KeyedMap α β} {a : α} :
    a ∈ m ↔ ∃ b, m.lookup a = some b := by
  rw [← AList.lookup_isSome, Option.isSome_iff_exists]

theorem countWhere_erase {m : KeyedMap α β} {a : α} {b : β} (p : β → Bool)
    (h : m.lookup a = some b) :
    countWhere p m = countWhere p (m.erase a) + if p b then 1 else 0 := by
  have hmem : (⟨a, b⟩ : Sigma fun _ : α => β) ∈ m.entries := mem_entries_iff_lookup.mpr h
  obtain ⟨c, l₁, l₂, hl₁, heq, herase⟩ :=
    List.exists_of_kerase (List.mem_keys_of_mem hmem)
  have hc : c = b := by
    have hlook : m.lookup a = some c := by
      rw [← mem_entries_iff_lookup, heq]
      simp
    exact Option.some.inj (hlook.symm.trans h)
  subst hc
  change m.entries.countP _ = (List.kerase a m.entries).countP _ + _
  rw [herase, heq]
  simp only [List.countP_append, List.countP_cons]
  omega

theorem countWhere_insert (p : β → Bool) (m : KeyedMap α β) (a : α) (b : β) :
    countWhere p (m.insert a b) = countWhere p (m.erase a) + if p b then 1 else 0 := by
  simp only [countWhere, AList.entries_insert, List.countP_cons]
  rfl

theorem erase_of_lookup_none {m : KeyedMap α β} {a : α} (h : m.lookup a = none) :
    m.erase a = m := by
  apply AList.ext
  exact List.kerase_of_notMem_keys (AList.lookup_eq_none.mp h)

theorem countWhere_insert_new {m : KeyedMap α β} {a : α} (p : β → Bool) (b : β)
    (h : m.lookup a = none) :
    countWhere p (m.insert a b) = countWhere p m + if p b then 1 else 0 := by
  rw [countWhere_insert, erase_of_lookup_none h]

theorem countWhere_insert_over {m : KeyedMap α β} {a : α} {b : β} (p : β → Bool) (c : β)
    (h : m.lookup a = some b) :
    countWhere p (m.insert a c) + (if p b then 1 else 0) =
      countWhere p m + if p c then 1 else 0 := by
  rw [countWhere_insert, countWhere_erase p h]
  omega

omit [DecidableEq α] in
theorem size_eq_countWhere (m : KeyedMap α β) : size m = countWhere (fun _ => true) m := by
  simp [size, countWhere]

theorem size_insert_new {m : KeyedMap α β} {a : α} (b : β) (h : m.lookup a = none) :
    size (m.insert a b) = size m + 1 := by
  simp only [size_eq_countWhere, countWhere_insert_new _ b h, if_true]

theorem size_insert_over {m : KeyedMap α β} {a : α} {b : β} (c : β)
    (h : m.lookup a = some b) : size (m.insert a c) = size m := by
  have hcount := countWhere_insert_over (fun _ => true) c h
  simpa [size_eq_countWhere] using hcount

theorem lookup_insert_eq (m : KeyedMap α β) (a a' : α) (b : β) :
    (m.insert a b).lookup a' = if a' = a then some b else m.lookup a' := by
  by_cases h : a' = a
  · subst h
    simp
  · simp [AList.lookup_insert_ne h, h]

/-- A property of all entries, after one has been written. -/
theorem forall_lookup_insert {P : α → β → Prop} {m : KeyedMap α β} {a : α} {b : β}
    (hnew : P a b) (hold : ∀ a' b', a' ≠ a → m.lookup a' = some b' → P a' b') :
    ∀ a' b', (m.insert a b).lookup a' = some b' → P a' b' := by
  intro a' b' hlook
  rw [lookup_insert_eq] at hlook
  split at hlook
  · next heq =>
    cases hlook
    rw [heq]
    exact hnew
  · next hne => exact hold a' b' hne hlook

theorem lookup_erase_eq (m : KeyedMap α β) (a a' : α) :
    (m.erase a).lookup a' = if a' = a then none else m.lookup a' := by
  by_cases h : a' = a
  · subst h
    simp
  · simp [AList.lookup_erase_ne h, h]

omit [DecidableEq α] in
theorem keys_map_values (f : β → β) (entries : List (Sigma fun _ : α => β)) :
    (entries.map fun e => ⟨e.1, f e.2⟩ : List (Sigma fun _ : α => β)).keys = entries.keys := by
  simp [List.keys, Function.comp_def]

/-- All values changed by one function. -/
def mapValues (f : β → β) (m : KeyedMap α β) : KeyedMap α β where
  entries := m.entries.map fun e => ⟨e.1, f e.2⟩
  nodupKeys := by
    rw [List.NodupKeys, keys_map_values]
    exact m.nodupKeys

/-- The entries whose value satisfies `p`. -/
def filterValues (p : β → Bool) (m : KeyedMap α β) : KeyedMap α β where
  entries := m.entries.filter fun e => p e.2
  nodupKeys := m.nodupKeys.sublist List.filter_sublist

theorem lookup_mapValues {f : β → β} {m : KeyedMap α β} {a : α} {c : β} :
    (mapValues f m).lookup a = some c ↔ ∃ b, m.lookup a = some b ∧ f b = c := by
  constructor
  · intro h
    obtain ⟨⟨a', b⟩, hmem, heq⟩ := List.mem_map.mp (mem_entries_iff_lookup.mpr h)
    cases heq
    exact ⟨b, mem_entries_iff_lookup.mp hmem, rfl⟩
  · rintro ⟨b, h, rfl⟩
    apply mem_entries_iff_lookup.mp
    exact List.mem_map.mpr ⟨⟨a, b⟩, mem_entries_iff_lookup.mpr h, rfl⟩

theorem lookup_mapValues_eq (f : β → β) (m : KeyedMap α β) (a : α) :
    (mapValues f m).lookup a = (m.lookup a).map f := by
  ext c
  rw [lookup_mapValues, Option.map_eq_some_iff]

theorem lookup_filterValues {p : β → Bool} {m : KeyedMap α β} {a : α} {b : β} :
    (filterValues p m).lookup a = some b ↔ m.lookup a = some b ∧ p b = true := by
  rw [← mem_entries_iff_lookup, ← mem_entries_iff_lookup]
  exact List.mem_filter

theorem lookup_filterValues_eq (p : β → Bool) (m : KeyedMap α β) (a : α) :
    (filterValues p m).lookup a = (m.lookup a).filter p := by
  ext b
  rw [lookup_filterValues, Option.filter_eq_some_iff]

/-- When every value tells its key, the values that belong to a key are the one under it; by
induction on the entries. -/
theorem filter_values {m : KeyedMap α β} {key : β → α}
    (hkey : ∀ a b, m.lookup a = some b → key b = a) (p : β → Bool) (a : α) :
    ((m.entries.filter fun e => p e.2).map Sigma.snd).filter (key · = a) =
      (m.lookup a).toList.filter p := by
  obtain ⟨entries, hnodup⟩ := m
  simp only [AList.lookup] at hkey ⊢
  induction entries with
  | nil => rfl
  | cons e rest ih =>
      obtain ⟨a', b⟩ := e
      obtain ⟨hnew, hrest⟩ := List.nodupKeys_cons.mp hnodup
      have hb : key b = a' := hkey a' b (List.dlookup_cons_eq _ _ _)
      have htail : ∀ a c, List.dlookup a rest = some c → key c = a := by
        intro a c hlook
        apply hkey
        rw [List.dlookup_cons_ne _ _ _]
        · exact hlook
        · rintro rfl
          exact hnew (List.mem_keys.mpr ⟨c, List.of_mem_dlookup hlook⟩)
      have ihrest := ih hrest htail
      by_cases heq : a' = a
      · subst heq
        rw [List.dlookup_eq_none.mpr hnew] at ihrest
        rw [List.dlookup_cons_eq]
        cases hp : p b with
        | true => simpa [hp, hb] using ihrest
        | false => simpa [hp, hb] using ihrest
      · rw [List.dlookup_cons_ne _ _ (Ne.symm heq)]
        cases hp : p b with
        | true => simpa [hp, hb, heq] using ihrest
        | false => simpa [hp] using ihrest

omit [DecidableEq α] in
theorem size_mapValues (f : β → β) (m : KeyedMap α β) : size (mapValues f m) = size m :=
  List.length_map _

omit [DecidableEq α] in
/-- The entries that are filtered out are counted by the opposite filter. -/
theorem size_filterValues (p : β → Bool) (m : KeyedMap α β) :
    size (filterValues (fun b => !p b) m) + (m.entries.filter fun e => p e.2).length =
      size m := by
  have hsplit := size_eq_countWhere_add p m
  simp only [countWhere, List.countP_eq_length_filter] at hsplit
  change (m.entries.filter fun e => !p e.2).length + _ = _
  omega

/-- Two maps have the same keys, and related values under each key. -/
def Rel (R : β → β → Prop) (m m' : KeyedMap α β) : Prop :=
  ∀ a, Option.Rel R (m.lookup a) (m'.lookup a)

theorem Rel.refl {R : β → β → Prop} (h : ∀ b, R b b) (m : KeyedMap α β) : Rel R m m := by
  intro a
  cases m.lookup a with
  | none => exact .none
  | some b => exact .some (h b)

theorem Rel.trans {R : β → β → Prop} (h : ∀ ⦃b c d⦄, R b c → R c d → R b d)
    {m m' m'' : KeyedMap α β} (hm : Rel R m m') (hm' : Rel R m' m'') : Rel R m m'' := by
  intro a
  have hab := hm a
  have hbc := hm' a
  generalize m.lookup a = b at hab
  generalize m'.lookup a = c at hab hbc
  generalize m''.lookup a = d at hbc
  cases hab with
  | none =>
      cases hbc
      exact .none
  | some hab =>
      cases hbc with
      | some hbc => exact .some (h hab hbc)

/-- A value is replaced by a related one. -/
theorem Rel.insert {R : β → β → Prop} (h : ∀ b, R b b) {m : KeyedMap α β} {a : α} {b c : β}
    (hlook : m.lookup a = some b) (hbc : R b c) : Rel R m (m.insert a c) := by
  intro a'
  rw [lookup_insert_eq]
  split
  · next heq =>
    rw [heq, hlook]
    exact .some hbc
  · exact Rel.refl h m a'

theorem Rel.of_right {R : β → β → Prop} {m m' : KeyedMap α β} (h : Rel R m m') {a : α} {c : β}
    (hlook : m'.lookup a = some c) : ∃ b, m.lookup a = some b ∧ R b c := by
  have ha := h a
  rw [hlook] at ha
  generalize m.lookup a = b at ha
  cases ha with
  | some hbc => exact ⟨_, rfl, hbc⟩

theorem Rel.of_left {R : β → β → Prop} {m m' : KeyedMap α β} (h : Rel R m m') {a : α} {b : β}
    (hlook : m.lookup a = some b) : ∃ c, m'.lookup a = some c ∧ R b c := by
  have ha := h a
  rw [hlook] at ha
  generalize m'.lookup a = c at ha
  cases ha with
  | some hbc => exact ⟨_, rfl, hbc⟩

/-- Related maps have the same keys. -/
theorem Rel.keys_perm {R : β → β → Prop} {m m' : KeyedMap α β} (h : Rel R m m') :
    m.keys.Perm m'.keys := by
  have hmem (a : α) : a ∈ m.keys ↔ a ∈ m'.keys := by
    change a ∈ m ↔ a ∈ m'
    rw [← AList.lookup_isSome, ← AList.lookup_isSome]
    have ha := h a
    generalize m.lookup a = b at ha
    generalize m'.lookup a = c at ha
    cases ha with
    | none => rfl
    | some hbc => rfl
  exact (List.perm_ext_iff_of_nodup m.keys_nodup m'.keys_nodup).mpr hmem

theorem keys_insert_new {m : KeyedMap α β} {a : α} (b : β) (h : m.lookup a = none) :
    (m.insert a b).keys = a :: m.keys := by
  rw [AList.keys_insert, List.erase_of_not_mem]
  exact AList.lookup_eq_none.mp h

omit [DecidableEq α] in
theorem keys_mapValues (f : β → β) (m : KeyedMap α β) : (mapValues f m).keys = m.keys :=
  keys_map_values f m.entries

omit [DecidableEq α] in
/-- The keys of the entries that are filtered out, and of those that are kept. -/
theorem keys_filterValues (p : β → Bool) (m : KeyedMap α β) :
    m.keys.Perm ((m.entries.filter fun e => p e.2).map Sigma.fst ++
      (filterValues (fun b => !p b) m).keys) := by
  have hsplit := List.filter_append_perm (fun e : Sigma fun _ : α => β => p e.2) m.entries
  have hkeys := (hsplit.map Sigma.fst).symm
  rw [List.map_append] at hkeys
  exact hkeys

theorem lookup_singleton_self (a : α) (b : β) :
    AList.lookup a (AList.singleton a b : KeyedMap α β) = some b := by
  rw [← AList.insert_empty, AList.lookup_insert]

theorem eq_empty_of_lookup_none {m : KeyedMap α β} (h : ∀ a, m.lookup a = none) : m = ∅ := by
  apply AList.ext
  apply List.eq_nil_iff_forall_not_mem.mpr
  rintro ⟨a, b⟩ hmem
  rw [mem_entries_iff_lookup, h a] at hmem
  cases hmem

theorem erase_singleton_self (a : α) (b : β) :
    AList.erase a (AList.singleton a b : KeyedMap α β) = ∅ := by
  apply eq_empty_of_lookup_none
  intro a'
  rw [lookup_erase_eq]
  split
  · rfl
  · next hne =>
    rw [← AList.insert_empty, lookup_insert_eq, if_neg hne]
    rfl

end KeyedMap

end TinyKv.Foundation
