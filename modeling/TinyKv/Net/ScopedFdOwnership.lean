import TinyKv.Net.ScopedFd

/-!
# The ownership of scoped descriptors

What the operations of the objects record is a lawful history of every opening, and the history
has each opening where the objects and the table have it. Each operation is put together from
changes of one number.
-/

namespace TinyKv

open Foundation

namespace ScopedFds

variable {ι : Type} [DecidableEq ι]

/-! ### The custody of the openings -/

/-- In whose hands the objects and the table have an opening. -/
inductive Placed (s : ScopedFds ι) (opening : Nat) : Custody ι → Prop
  | unknown (h : s.openings ≤ opening) : Placed s opening .unknown
  | free {fd : Int} (hopen : s.table fd = some opening) (hnobody : ∀ a, ¬ s.Holds a fd) :
      Placed s opening .free
  | held {fd : Int} {a : ι} (hopen : s.table fd = some opening) (hholds : s.Holds a fd) :
      Placed s opening (.held a)
  | disposed (h : opening < s.openings) (hclosed : ∀ fd, s.table fd ≠ some opening) :
      Placed s opening .disposed

/-- The history is lawful, and every opening is where its history has it. -/
structure Sound (s : ScopedFds ι) : Prop where
  table_lt : ∀ {fd opening}, s.table fd = some opening → 0 ≤ fd ∧ opening < s.openings
  table_inj : ∀ {fd other opening}, s.table fd = some opening → s.table other = some opening →
    fd = other
  exclusive : ∀ {a b fd}, s.Holds a fd → s.Holds b fd → a = b
  held_open : ∀ {a fd}, s.Holds a fd → s.table fd ≠ none
  placed : ∀ opening, ∃ c, OwnershipEvent.custody opening .unknown s.log = some c ∧
    s.Placed opening c
  strayCloses_nil : s.strayCloses = []

theorem sound_init : ({} : ScopedFds ι).Sound where
  table_lt h := by cases h
  table_inj h := by cases h
  exclusive h := by cases h.2
  held_open h := by cases h.2
  placed opening := ⟨.unknown, rfl, .unknown (Nat.zero_le opening)⟩
  strayCloses_nil := rfl

theorem Sound.custody_held {s : ScopedFds ι} (h : s.Sound) {a : ι} {fd : Int} {opening : Nat}
    (hopen : s.table fd = some opening) (hholds : s.Holds a fd) :
    OwnershipEvent.custody opening .unknown s.log = some (.held a) := by
  obtain ⟨c, hcustody, hplaced⟩ := h.placed opening
  cases hplaced with
  | unknown hle => exact absurd (h.table_lt hopen).2 (Nat.not_lt.mpr hle)
  | free hopen' hnobody =>
      cases h.table_inj hopen hopen'
      exact absurd hholds (hnobody a)
  | held hopen' hholds' =>
      cases h.table_inj hopen hopen'
      cases h.exclusive hholds hholds'
      exact hcustody
  | disposed hlt hclosed => exact absurd hopen (hclosed fd)

theorem Sound.custody_free {s : ScopedFds ι} (h : s.Sound) {fd : Int} {opening : Nat}
    (hopen : s.table fd = some opening) (hnobody : ∀ a, ¬ s.Holds a fd) :
    OwnershipEvent.custody opening .unknown s.log = some .free := by
  obtain ⟨c, hcustody, hplaced⟩ := h.placed opening
  cases hplaced with
  | unknown hle => exact absurd (h.table_lt hopen).2 (Nat.not_lt.mpr hle)
  | free hopen' hnobody' => exact hcustody
  | held hopen' hholds' =>
      cases h.table_inj hopen hopen'
      exact absurd hholds' (hnobody _)
  | disposed hlt hclosed => exact absurd hopen (hclosed fd)

/-- A change of what is held, recorded by nothing, keeps the invariant when nothing valid is
concerned. -/
theorem Sound.congr {s : ScopedFds ι} (h : s.Sound) {objects : ι → Option ScopedFd}
    (hholds : ∀ a fd, ({ s with objects } : ScopedFds ι).Holds a fd ↔ s.Holds a fd) :
    ({ s with objects } : ScopedFds ι).Sound where
  table_lt := h.table_lt
  table_inj := h.table_inj
  exclusive ha hb := h.exclusive ((hholds ..).mp ha) ((hholds ..).mp hb)
  held_open ha := h.held_open ((hholds ..).mp ha)
  placed opening := by
    obtain ⟨c, hcustody, hplaced⟩ := h.placed opening
    refine ⟨c, hcustody, ?_⟩
    cases hplaced with
    | unknown hle => exact .unknown hle
    | free hopen hnobody => exact .free hopen fun a ha => hnobody a ((hholds ..).mp ha)
    | held hopen ha => exact .held hopen ((hholds ..).mpr ha)
    | disposed hlt hclosed => exact .disposed hlt hclosed
  strayCloses_nil := h.strayCloses_nil

/-- Which opening is behind a number, and who holds it. -/
inductive Behind (s : ScopedFds ι) (fd : Int) (opening : Nat) : Custody ι → Prop
  | free (hopen : s.table fd = some opening) (hnobody : ∀ a, ¬ s.Holds a fd) :
      Behind s fd opening .free
  | held {a : ι} (hopen : s.table fd = some opening) (hholds : ∀ b, s.Holds b fd ↔ b = a) :
      Behind s fd opening (.held a)
  | disposed (hclosed : s.table fd = none) (hnobody : ∀ a, ¬ s.Holds a fd) :
      Behind s fd opening .disposed

/-- Nothing but one number changes. -/
structure Frame (s s' : ScopedFds ι) (fd : Int) : Prop where
  openings : s'.openings = s.openings
  strayCloses : s'.strayCloses = s.strayCloses
  table : ∀ {other}, other ≠ fd → s'.table other = s.table other
  holds : ∀ {a other}, other ≠ fd → (s'.Holds a other ↔ s.Holds a other)

omit [DecidableEq ι] in
theorem Behind.eq_none_or {s : ScopedFds ι} {fd : Int} {opening : Nat} {c : Custody ι}
    (h : s.Behind fd opening c) : s.table fd = some opening ∨ s.table fd = none := by
  cases h with
  | free hopen hnobody => exact .inl hopen
  | held hopen hholds => exact .inl hopen
  | disposed hclosed hnobody => exact .inr hclosed

omit [DecidableEq ι] in
theorem Behind.exclusive {s : ScopedFds ι} {fd : Int} {opening : Nat} {c : Custody ι}
    (h : s.Behind fd opening c) {a b : ι} (ha : s.Holds a fd) (hb : s.Holds b fd) : a = b := by
  cases h with
  | free hopen hnobody => exact absurd ha (hnobody a)
  | held hopen hholds => exact ((hholds a).mp ha).trans ((hholds b).mp hb).symm
  | disposed hclosed hnobody => exact absurd ha (hnobody a)

omit [DecidableEq ι] in
theorem Behind.held_open {s : ScopedFds ι} {fd : Int} {opening : Nat} {c : Custody ι}
    (h : s.Behind fd opening c) {a : ι} (ha : s.Holds a fd) : s.table fd ≠ none := by
  cases h with
  | free hopen hnobody => exact absurd ha (hnobody a)
  | held hopen hholds => simp [hopen]
  | disposed hclosed hnobody => exact absurd ha (hnobody a)

omit [DecidableEq ι] in
/-- What is behind a number that has changed was behind it before. -/
theorem Frame.table_opening {s s' : ScopedFds ι} {fd other : Int} {opening n : Nat} {c : Custody ι}
    (hframe : s.Frame s' fd) (hopen : s.table fd = some opening) (hbehind : s'.Behind fd opening c)
    (hn : s'.table other = some n) : s.table other = some n := by
  by_cases heq : other = fd
  · subst heq
    obtain hsame | hnone := hbehind.eq_none_or
    · rw [hopen, ← hsame]
      exact hn
    · cases hnone.symm.trans hn
  · rw [← hframe.table heq]
    exact hn

omit [DecidableEq ι] in
/-- The other openings stay where they are. -/
theorem Frame.placed {s s' : ScopedFds ι} {fd : Int} {opening n : Nat} {c c' : Custody ι}
    (hframe : s.Frame s' fd) (hopen : s.table fd = some opening)
    (hbehind : s'.Behind fd opening c') (hne : n ≠ opening) (h : s.Placed n c) :
    s'.Placed n c := by
  have hother {other : Int} (hn : s.table other = some n) : other ≠ fd := by
    rintro rfl
    rw [hopen] at hn
    cases hn
    exact hne rfl
  cases h with
  | unknown hle => exact .unknown (hframe.openings.trans_le hle)
  | free hn hnobody =>
      refine .free ((hframe.table (hother hn)).trans hn) fun a ha => ?_
      exact hnobody a ((hframe.holds (hother hn)).mp ha)
  | held hn hholds =>
      exact .held ((hframe.table (hother hn)).trans hn) ((hframe.holds (hother hn)).mpr hholds)
  | disposed hlt hclosed =>
      refine .disposed (hlt.trans_eq hframe.openings.symm) fun other hn => ?_
      exact hclosed other (hframe.table_opening hopen hbehind hn)

/-- The opening behind the number that changes is where its history has it. -/
theorem Frame.placed_self {s s' : ScopedFds ι} (h : s.Sound) {fd : Int} {opening : Nat}
    {c : Custody ι} (hframe : s.Frame s' fd) (hopen : s.table fd = some opening)
    (hbehind : s'.Behind fd opening c) : s'.Placed opening c := by
  cases hbehind with
  | free hsame hnobody => exact .free hsame hnobody
  | held hsame hholds => exact .held hsame ((hholds _).mpr rfl)
  | disposed hclosed hnobody =>
      refine .disposed ((h.table_lt hopen).2.trans_eq hframe.openings.symm) fun other hn => ?_
      by_cases heq : other = fd
      · subst heq
        cases hclosed.symm.trans hn
      · rw [hframe.table heq] at hn
        exact heq (h.table_inj hn hopen)

/-- One number changes, with a lawful event of the opening behind it. -/
theorem Sound.change {s s' : ScopedFds ι} (h : s.Sound) {fd : Int} {opening : Nat}
    (hopen : s.table fd = some opening) (hframe : s.Frame s' fd) {event : OwnershipEvent ι Nat}
    (hlog : s'.log = s.log ++ [event]) (hresource : event.resource = opening) {c c' : Custody ι}
    (hcustody : OwnershipEvent.custody opening .unknown s.log = some c)
    (hnext : event.next c = some c') (hbehind : s'.Behind fd opening c') : s'.Sound where
  table_lt hn := by
    rw [hframe.openings]
    exact h.table_lt (hframe.table_opening hopen hbehind hn)
  table_inj hone hother :=
    h.table_inj (hframe.table_opening hopen hbehind hone)
      (hframe.table_opening hopen hbehind hother)
  exclusive {a b other} ha hb := by
    by_cases heq : other = fd
    · subst heq
      exact hbehind.exclusive ha hb
    · exact h.exclusive ((hframe.holds heq).mp ha) ((hframe.holds heq).mp hb)
  held_open {a other} ha := by
    by_cases heq : other = fd
    · subst heq
      exact hbehind.held_open ha
    · rw [hframe.table heq]
      exact h.held_open ((hframe.holds heq).mp ha)
  placed n := by
    rw [hlog]
    by_cases heq : n = opening
    · subst heq
      refine ⟨c', ?_, hframe.placed_self h hopen hbehind⟩
      exact (OwnershipEvent.custody_next hresource hcustody).trans hnext
    · obtain ⟨c, hc, hplaced⟩ := h.placed n
      refine ⟨c, ?_, hframe.placed hopen hbehind heq hplaced⟩
      rw [OwnershipEvent.custody_other (by rw [hresource]; exact Ne.symm heq)]
      exact hc
  strayCloses_nil := hframe.strayCloses.trans h.strayCloses_nil

/-! ### What the operations do -/

theorem holds_setFd {s : ScopedFds ι} {a b : ι} {v fd : Int} :
    (s.setFd a v).Holds b fd ↔ if b = a then 0 ≤ fd ∧ v = fd else s.Holds b fd := by
  simp only [Holds, setFd, Function.update_apply]
  split
  next heq => simp
  next hne => rfl

/-- `m_fd` changes from one number to another; those of the two that are valid are the one
that matters. -/
theorem holds_setFd_of_ne {s : ScopedFds ι} {a b : ι} {v fd other : Int}
    (hbefore : ∀ fd', s.Holds a fd' → fd' = fd) (hafter : v = fd ∨ v < 0) (hne : other ≠ fd) :
    (s.setFd a v).Holds b other ↔ s.Holds b other := by
  rw [holds_setFd]
  split
  next heq =>
    subst heq
    constructor
    · rintro ⟨hvalid, rfl⟩
      obtain heq | hinvalid := hafter
      · exact absurd heq hne
      · exact absurd hvalid (Int.not_le.mpr hinvalid)
    · intro hholds
      exact absurd (hbefore other hholds) hne
  next hother => rfl

/-- After its only owner has given it up, nobody holds a descriptor. -/
theorem Sound.nobody_setFd {s : ScopedFds ι} (h : s.Sound) {a : ι} {fd : Int}
    (hholds : s.Holds a fd) (b : ι) : ¬ (s.setFd a INVALID_FD).Holds b fd := by
  rw [holds_setFd]
  split
  next heq =>
    rintro ⟨hvalid, rfl⟩
    exact absurd invalid_lt (Int.not_lt.mpr hvalid)
  next hne =>
    intro hb
    exact hne (h.exclusive hb hholds)

omit [DecidableEq ι] in
theorem record_open {s : ScopedFds ι} {fd : Int} {opening : Nat} (hopen : s.table fd = some opening)
    (event : Nat → OwnershipEvent ι Nat) :
    s.record event fd = { s with log := s.log ++ [event opening] } := by
  simp only [record, hopen]

theorem Sound.record_invalid {s : ScopedFds ι} (h : s.Sound) {fd : Int} (hfd : fd < 0)
    (event : Nat → OwnershipEvent ι Nat) : s.record event fd = s := by
  cases hopen : s.table fd with
  | none => simp only [record, hopen]
  | some opening => exact absurd (h.table_lt hopen).1 (Int.not_le.mpr hfd)

theorem Sound.opening {s : ScopedFds ι} (h : s.Sound) {a : ι} {fd : Int}
    (hholds : s.Holds a fd) : ∃ opening, s.table fd = some opening :=
  Option.ne_none_iff_exists'.mp (h.held_open hholds)

omit [DecidableEq ι] in
theorem holds_eq {s : ScopedFds ι} {a : ι} {object : Int} (hobject : s.objects a = some ⟨object⟩)
    (fd : Int) (hholds : s.Holds a fd) : fd = object := by
  have heq := hobject.symm.trans hholds.2
  cases heq
  rfl

omit [DecidableEq ι] in
theorem not_holds_of_none {s : ScopedFds ι} {a : ι} (hnone : s.objects a = none) (fd : Int) :
    ¬ s.Holds a fd := by
  intro hholds
  cases hnone.symm.trans hholds.2

/-- A change among invalid numbers. -/
theorem Sound.setFd_invalid {s : ScopedFds ι} (h : s.Sound) {a : ι} {v : Int} (hv : v < 0)
    (hidle : ∀ fd, ¬ s.Holds a fd) : (s.setFd a v).Sound := by
  apply h.congr
  intro b fd
  change (s.setFd a v).Holds b fd ↔ s.Holds b fd
  by_cases heq : fd = v
  · subst heq
    have hnone (s : ScopedFds ι) (b : ι) : ¬ s.Holds b fd := fun hb =>
      absurd hb.1 (Int.not_le.mpr hv)
    exact iff_of_false (hnone _ b) (hnone s b)
  · exact holds_setFd_of_ne (fun fd' hholds => absurd hholds (hidle fd')) (.inl rfl) heq

/-- An object that holds nothing takes over a free descriptor. -/
theorem Sound.take {s : ScopedFds ι} (h : s.Sound) {a : ι} {fd : Int}
    (hidle : ∀ fd, ¬ s.Holds a fd) (hfd : s.Transferable fd) : (s.take a fd).Sound := by
  unfold ScopedFds.take
  obtain hinvalid | ⟨hopen, hnobody⟩ := hfd
  · rw [h.record_invalid hinvalid]
    exact h.setFd_invalid hinvalid hidle
  · obtain ⟨opening, hopen⟩ := Option.ne_none_iff_exists'.mp hopen
    have hfree (b : ι) : ¬ s.Holds b fd := fun hb => hnobody b hb.2
    rw [record_open hopen]
    refine h.change hopen ⟨rfl, rfl, fun _ => rfl, ?_⟩ rfl rfl
      (h.custody_free hopen hfree) rfl (.held hopen ?_)
    · exact holds_setFd_of_ne (fun fd' hholds => absurd hholds (hidle fd')) (.inl rfl)
    · intro b
      refine holds_setFd.trans ?_
      split
      next heq => exact iff_of_true ⟨(h.table_lt hopen).1, rfl⟩ heq
      next hne => exact iff_of_false (hfree b) hne

theorem Sound.release {s : ScopedFds ι} (h : s.Sound) (a : ι) : (s.release a).2.Sound := by
  unfold ScopedFds.release
  cases hobject : s.objects a with
  | none => exact h
  | some object =>
      obtain ⟨oldFd⟩ := object
      simp only
      by_cases hvalid : 0 ≤ oldFd
      · have hholds : s.Holds a oldFd := ⟨hvalid, hobject⟩
        obtain ⟨opening, hopen⟩ := h.opening hholds
        rw [record_open hopen]
        refine h.change hopen ⟨rfl, rfl, fun _ => rfl, ?_⟩ rfl rfl
          (h.custody_held hopen hholds) (if_pos rfl) (.free hopen (h.nobody_setFd hholds))
        exact holds_setFd_of_ne (holds_eq hobject) (.inr invalid_lt)
      · rw [h.record_invalid (Int.not_le.mp hvalid)]
        apply h.setFd_invalid invalid_lt
        intro fd hholds
        cases holds_eq hobject fd hholds
        exact hvalid hholds.1

/-- An object closes the descriptor it holds, and gives it up. -/
theorem Sound.close_own {s : ScopedFds ι} (h : s.Sound) {a : ι} {fd : Int}
    (hholds : s.Holds a fd) : ((s.close (some a) fd).setFd a INVALID_FD).Sound := by
  obtain ⟨opening, hopen⟩ := h.opening hholds
  simp only [close, hopen]
  refine h.change hopen ⟨rfl, rfl, fun hne => Function.update_of_ne hne .., ?_⟩ rfl rfl
    (h.custody_held hopen hholds) (if_pos rfl)
    (.disposed (Function.update_self ..) (h.nobody_setFd hholds))
  exact holds_setFd_of_ne (holds_eq hholds.2) (.inr invalid_lt)

/-- The program closes a descriptor that no object owns. -/
theorem Sound.close_free {s : ScopedFds ι} (h : s.Sound) {fd : Int} (hfree : s.Free fd) :
    (s.close none fd).Sound := by
  obtain ⟨opening, hopen⟩ := Option.ne_none_iff_exists'.mp hfree.1
  have hnobody (a : ι) : ¬ s.Holds a fd := fun ha => hfree.2 a ha.2
  simp only [close, hopen]
  exact h.change hopen ⟨rfl, rfl, fun hne => Function.update_of_ne hne .., fun _ => .rfl⟩
    rfl rfl (h.custody_free hopen hnobody) rfl
    (.disposed (Function.update_self ..) hnobody)

omit [DecidableEq ι] in
/-- A number is what has just been opened, or it was open before. -/
theorem table_opens {s : ScopedFds ι} {fd other : Int} {n : Nat}
    (hn : (s.opens fd).table other = some n) :
    (other = fd ∧ n = s.openings) ∨ s.table other = some n := by
  by_cases heq : other = fd
  · subst heq
    cases (Function.update_self ..).symm.trans hn
    exact .inl ⟨rfl, rfl⟩
  · exact .inr ((Function.update_of_ne heq ..).symm.trans hn)

omit [DecidableEq ι] in
theorem table_opens_of_open {s : ScopedFds ι} {fd other : Int} {n : Nat}
    (hclosed : s.table fd = none) (hn : s.table other = some n) :
    (s.opens fd).table other = some n := by
  refine (Function.update_of_ne ?_ ..).trans hn
  rintro rfl
  cases hclosed.symm.trans hn

/-- An opening with the next number is unknown. -/
theorem Sound.custody_next_opening {s : ScopedFds ι} (h : s.Sound) :
    OwnershipEvent.custody s.openings .unknown s.log = some .unknown := by
  obtain ⟨c, hcustody, hplaced⟩ := h.placed s.openings
  cases hplaced with
  | unknown hle => exact hcustody
  | free hopen hnobody => exact absurd (h.table_lt hopen).2 (Nat.lt_irrefl _)
  | held hopen hholds => exact absurd (h.table_lt hopen).2 (Nat.lt_irrefl _)
  | disposed hlt hclosed => exact absurd hlt (Nat.lt_irrefl _)

/-- The kernel opens something under a number that is not in use. -/
theorem Sound.opens {s : ScopedFds ι} (h : s.Sound) {fd : Int} (hvalid : 0 ≤ fd)
    (hclosed : s.table fd = none) : (s.opens fd).Sound where
  table_lt hn := by
    obtain ⟨rfl, rfl⟩ | hbefore := table_opens hn
    · exact ⟨hvalid, Nat.lt_succ_self _⟩
    · obtain ⟨hfd, hlt⟩ := h.table_lt hbefore
      exact ⟨hfd, Nat.lt_succ_of_lt hlt⟩
  table_inj hone hother := by
    obtain ⟨rfl, rfl⟩ | hbefore := table_opens hone
    · obtain ⟨rfl, -⟩ | hbefore := table_opens hother
      · rfl
      · exact absurd (h.table_lt hbefore).2 (Nat.lt_irrefl _)
    · obtain ⟨rfl, rfl⟩ | hbefore' := table_opens hother
      · exact absurd (h.table_lt hbefore).2 (Nat.lt_irrefl _)
      · exact h.table_inj hbefore hbefore'
  exclusive := h.exclusive
  held_open hholds := by
    obtain ⟨n, hn⟩ := h.opening hholds
    rw [table_opens_of_open hclosed hn]
    nofun
  placed n := by
    by_cases heq : n = s.openings
    · subst heq
      refine ⟨.free, OwnershipEvent.custody_next (r := s.openings) rfl h.custody_next_opening, ?_⟩
      refine .free (Function.update_self ..) fun a hholds => ?_
      exact absurd hclosed (h.held_open hholds)
    · obtain ⟨c, hcustody, hplaced⟩ := h.placed n
      refine ⟨c, (OwnershipEvent.custody_other (Ne.symm heq)).trans hcustody, ?_⟩
      cases hplaced with
      | unknown hle => exact .unknown (Nat.lt_of_le_of_ne hle (Ne.symm heq))
      | free hn hnobody => exact .free (table_opens_of_open hclosed hn) hnobody
      | held hn hholds => exact .held (table_opens_of_open hclosed hn) hholds
      | disposed hlt hnone =>
          refine .disposed (Nat.lt_succ_of_lt hlt) fun other hn => ?_
          obtain ⟨-, hnew⟩ | hbefore := table_opens hn
          · exact heq hnew
          · exact hnone other hbefore
  strayCloses_nil := h.strayCloses_nil

omit [DecidableEq ι] in
@[simp] theorem objects_record (s : ScopedFds ι) (event : Nat → OwnershipEvent ι Nat) (fd : Int) :
    (s.record event fd).objects = s.objects := by
  unfold record
  split
  · rfl
  · rfl

omit [DecidableEq ι] in
@[simp] theorem table_record (s : ScopedFds ι) (event : Nat → OwnershipEvent ι Nat) (fd : Int) :
    (s.record event fd).table = s.table := by
  unfold record
  split
  · rfl
  · rfl

@[simp] theorem table_setFd (s : ScopedFds ι) (a : ι) (fd : Int) :
    (s.setFd a fd).table = s.table := rfl

@[simp] theorem table_take (s : ScopedFds ι) (a : ι) (fd : Int) :
    (s.take a fd).table = s.table := table_record ..

@[simp] theorem table_release (s : ScopedFds ι) (a : ι) : (s.release a).2.table = s.table := by
  unfold ScopedFds.release
  split
  · rfl
  · exact table_record ..

theorem not_holds_invalid (s : ScopedFds ι) (a : ι) (fd : Int) :
    ¬ (s.setFd a INVALID_FD).Holds a fd := by
  rw [holds_setFd, if_pos rfl]
  rintro ⟨hvalid, rfl⟩
  exact absurd invalid_lt (Int.not_lt.mpr hvalid)

/-- What is held after a `Release` was held before it. -/
theorem holds_release {s : ScopedFds ι} {a b : ι} {fd : Int}
    (hholds : (s.release a).2.Holds b fd) : s.Holds b fd := by
  unfold ScopedFds.release at hholds
  cases hobject : s.objects a with
  | none =>
      rw [hobject] at hholds
      exact hholds
  | some object =>
      rw [hobject] at hholds
      by_cases heq : b = a
      · subst heq
        exact absurd hholds (not_holds_invalid _ b fd)
      · rw [holds_setFd, if_neg heq] at hholds
        simpa [Holds] using hholds

/-- What has been given up is free, or it was invalid. -/
theorem Sound.transferable_release {s : ScopedFds ι} (h : s.Sound) (a : ι) :
    (s.release a).2.Transferable (s.release a).1 := by
  unfold ScopedFds.release
  cases hobject : s.objects a with
  | none => exact .inl invalid_lt
  | some object =>
      obtain ⟨oldFd⟩ := object
      simp only
      by_cases hvalid : 0 ≤ oldFd
      · have hholds : s.Holds a oldFd := ⟨hvalid, hobject⟩
        obtain ⟨opening, hopen⟩ := h.opening hholds
        rw [record_open hopen]
        refine .inr ⟨h.held_open hholds, fun b hb => ?_⟩
        exact h.nobody_setFd hholds b ⟨hvalid, hb⟩
      · exact .inl (Int.not_le.mp hvalid)

/-- It does not matter what the number was that another one takes the place of. -/
theorem take_setFd (s : ScopedFds ι) (a : ι) (v fd : Int) :
    (s.setFd a v).take a fd = s.take a fd := by
  unfold ScopedFds.take record
  rw [table_setFd]
  cases hopen : s.table fd with
  | none => simp [setFd]
  | some opening => simp [setFd]

omit [DecidableEq ι] in
@[simp] theorem objects_close (s : ScopedFds ι) (owner : Option ι) (fd : Int) :
    (s.close owner fd).objects = s.objects := by
  unfold close
  split
  · rfl
  · rfl

omit [DecidableEq ι] in
theorem table_close_of_ne (s : ScopedFds ι) (owner : Option ι) {fd other : Int}
    (hne : other ≠ fd) : (s.close owner fd).table other = s.table other := by
  unfold close
  split
  · exact Function.update_of_ne hne ..
  · rfl

/-- After an object has closed its own descriptor, another one can still be handed over. -/
theorem Sound.transferable_close_own {s : ScopedFds ι} (h : s.Sound) {a : ι} {fd newFd : Int}
    (hholds : s.Holds a fd) (hfd : s.Transferable newFd) :
    ((s.close (some a) fd).setFd a INVALID_FD).Transferable newFd := by
  obtain hinvalid | ⟨hopen, hnobody⟩ := hfd
  · exact .inl hinvalid
  · have hne : newFd ≠ fd := by
      rintro rfl
      exact hnobody a hholds.2
    obtain ⟨opening, htable⟩ := Option.ne_none_iff_exists'.mp hopen
    have hvalid := (h.table_lt htable).1
    refine .inr ⟨?_, fun b hb => ?_⟩
    · rw [table_setFd, table_close_of_ne s _ hne]
      exact hopen
    · have hbefore : (s.close (some a) fd).Holds b newFd := by
        have hafter : ((s.close (some a) fd).setFd a INVALID_FD).Holds b newFd := ⟨hvalid, hb⟩
        rw [holds_setFd] at hafter
        split at hafter
        next heq => exact absurd (hafter.2 ▸ invalid_lt) (Int.not_lt.mpr hvalid)
        next => exact hafter
      exact hnobody b (by simpa [Holds] using hbefore.2)

theorem Sound.reset {s : ScopedFds ι} (h : s.Sound) {a : ι} {newFd : Int}
    (hfd : s.objects a = some ⟨newFd⟩ ∨ s.Transferable newFd) : (s.reset a newFd).Sound := by
  unfold ScopedFds.reset
  cases hobject : s.objects a with
  | none => exact h
  | some object =>
      obtain ⟨fd⟩ := object
      simp only
      split
      next hsame => exact h
      next hother =>
        have htransfer : s.Transferable newFd := by
          obtain hsame | htransfer := hfd
          · cases hobject.symm.trans hsame
            exact absurd rfl hother
          · exact htransfer
        split
        next hvalid =>
          -- the object is left without a descriptor in between
          have hholds : s.Holds a fd := ⟨hvalid, hobject⟩
          rw [← take_setFd _ a INVALID_FD]
          apply (h.close_own hholds).take (not_holds_invalid _ a)
          exact h.transferable_close_own hholds htransfer
        next hinvalid =>
          apply h.take _ htransfer
          intro fd' hholds
          cases holds_eq hobject fd' hholds
          exact hinvalid hholds.1

theorem Sound.moveConstruct {s : ScopedFds ι} (h : s.Sound) {a : ι} (hnew : s.objects a = none)
    (other : ι) : (s.moveConstruct a other).Sound := by
  apply (h.release other).take _ (h.transferable_release other)
  intro fd hholds
  cases hnew.symm.trans (holds_release hholds).2

theorem Sound.moveAssign {s : ScopedFds ι} (h : s.Sound) (a other : ι) :
    (s.moveAssign a other).Sound := by
  unfold ScopedFds.moveAssign
  split
  next hne => exact (h.release other).reset (.inr (h.transferable_release other))
  next heq => exact h

theorem not_holds_reset (s : ScopedFds ι) (a : ι) (fd : Int) :
    ¬ (s.reset a INVALID_FD).Holds a fd := by
  unfold ScopedFds.reset
  cases hobject : s.objects a with
  | none =>
      intro hholds
      cases hobject.symm.trans hholds.2
  | some object =>
      simp only
      split
      next hsame =>
        intro hholds
        cases (holds_eq hobject fd hholds).trans hsame
        exact absurd invalid_lt (Int.not_lt.mpr hholds.1)
      next hother => exact not_holds_invalid _ a fd

theorem Sound.destroy {s : ScopedFds ι} (h : s.Sound) (a : ι) : (s.destroy a).Sound := by
  apply (h.reset (.inr (.inl invalid_lt))).congr
  intro b fd
  by_cases heq : b = a
  · subst heq
    refine iff_of_false (fun hholds => ?_) (not_holds_reset s b fd)
    cases (Function.update_self ..).symm.trans hholds.2
  · simp [Holds, Function.update_of_ne heq]

/-! ### Runs -/

theorem Sound.step {s : ScopedFds ι} (h : s.Sound) {action : Action ι}
    (hadmissible : s.Admissible action) : (s.step action).Sound := by
  cases action with
  | opens fd => exact h.opens hadmissible.1 hadmissible.2
  | close fd => exact h.close_free hadmissible
  | constructDefault a => exact h.take (not_holds_of_none hadmissible) (.inl invalid_lt)
  | construct a fd => exact h.take (not_holds_of_none hadmissible.1) hadmissible.2
  | moveConstruct a other => exact h.moveConstruct hadmissible.1 other
  | moveAssign a other => exact h.moveAssign a other
  | release a => exact h.release a
  | reset a fd => exact h.reset hadmissible.2
  | destroy a => exact h.destroy a

/-- `Reset` closes only what the object has held. -/
theorem objects_of_reset {s : ScopedFds ι} {a : ι} {newFd fd : Int} (hopen : s.table fd ≠ none)
    (hclosed : (s.reset a newFd).table fd = none) : s.objects a = some ⟨fd⟩ := by
  unfold ScopedFds.reset at hclosed
  cases hobject : s.objects a with
  | none =>
      rw [hobject] at hclosed
      exact absurd hclosed hopen
  | some object =>
      rw [hobject] at hclosed
      simp only at hclosed
      split at hclosed
      next hsame => exact absurd hclosed hopen
      next hother =>
        rw [table_take] at hclosed
        split at hclosed
        next hvalid =>
          by_contra hne
          have hfd : fd ≠ object.fd := by
            rintro rfl
            exact hne rfl
          rw [table_close_of_ne s _ hfd] at hclosed
          exact hopen hclosed
        next hinvalid => exact absurd hclosed hopen

theorem Sound.closesOwn {s : ScopedFds ι} (h : s.Sound) {action : Action ι}
    (hadmissible : s.Admissible action) : s.ClosesOwn action := by
  intro fd hopen hclosed a hholds
  -- a number that stays in the table has not been closed
  have hkept {t : ScopedFds ι} (htable : t.table = s.table) : t.table fd ≠ none := by
    rw [htable]
    exact hopen
  cases action with
  | opens other =>
      obtain ⟨opening, htable⟩ := h.opening hholds
      cases (table_opens_of_open hadmissible.2 htable).symm.trans hclosed
  | close other =>
      by_cases heq : fd = other
      · subst heq
        exact absurd hholds.2 (hadmissible.2 a)
      · rw [ScopedFds.step, table_close_of_ne s _ heq] at hclosed
        exact absurd hclosed hopen
  | constructDefault b => exact absurd hclosed (hkept (table_take ..))
  | construct b newFd => exact absurd hclosed (hkept (table_take ..))
  | moveConstruct b other =>
      exact absurd hclosed (hkept ((table_take ..).trans (table_release ..)))
  | moveAssign b other =>
      simp only [ScopedFds.step, ScopedFds.moveAssign] at hclosed
      split at hclosed
      next hne =>
        rw [← table_release s other] at hopen
        have hobject := objects_of_reset hopen hclosed
        exact congrArg some (h.exclusive (holds_release ⟨hholds.1, hobject⟩) hholds)
      next heq => exact absurd hclosed hopen
  | release b => exact absurd hclosed (hkept (table_release ..))
  | reset b newFd =>
      have hobject := objects_of_reset hopen hclosed
      exact congrArg some (h.exclusive ⟨hholds.1, hobject⟩ hholds)
  | destroy b =>
      have hobject := objects_of_reset (s := s) (a := b) hopen hclosed
      exact congrArg some (h.exclusive ⟨hholds.1, hobject⟩ hholds)

theorem Sound.linear {s : ScopedFds ι} (h : s.Sound) : s.Linear where
  exclusive := h.exclusive
  held_open := h.held_open
  strayCloses_nil := h.strayCloses_nil
  disposals_le opening := by
    obtain ⟨c, hcustody, -⟩ := h.placed opening
    rw [OwnershipEvent.disposals_eq hcustody]
    split
    · exact le_rfl
    · exact Nat.zero_le 1
  adopted opening owner hadopted := by
    obtain ⟨c, hcustody, hplaced⟩ := h.placed opening
    cases hplaced with
    | unknown hle => exact .inr (OwnershipEvent.settled hcustody hadopted nofun)
    | free hopen hnobody => exact .inr (OwnershipEvent.settled hcustody hadopted nofun)
    | held hopen hholds => exact .inl ⟨_, _, hholds, hopen⟩
    | disposed hlt hclosed => exact .inr (OwnershipEvent.settled hcustody hadopted nofun)

/-- Whatever a program does with any number of objects, no two ever hold one valid descriptor, none
is closed that another object holds, and none is closed twice. When no object is left, every
descriptor that has been adopted has been closed exactly once, unless it was released and not
adopted again. -/
theorem ownership_linear (actions : List (Action ι)) (h : machine.Meets Admissible {} actions) :
    machine.Meets ClosesOwn {} actions ∧
      (∀ before, before <+: actions → (machine.run {} before).Linear) ∧
      ((∀ a, (machine.run {} actions).objects a = none) →
        ∀ opening owner, .adopted owner opening ∈ (machine.run {} actions).log →
          (machine.run {} actions).Settled opening) := by
  have hstep (s : ScopedFds ι) (action : Action ι) (hs : s.Sound) (ha : s.Admissible action) :
      (s.step action).Sound := hs.step ha
  have hlinear (before : List (Action ι)) (hbefore : before <+: actions) :
      (machine.run {} before).Linear :=
    (machine.run_invariant_of_meets hstep sound_init (h.before hbefore)).linear
  refine ⟨h.imp hstep (fun s action hs ha => hs.closesOwn ha) sound_init, hlinear, ?_⟩
  intro hend opening owner hadopted
  have hfinal := hlinear actions (List.prefix_refl actions)
  obtain ⟨a, fd, hholds, -⟩ | hsettled := hfinal.adopted opening owner hadopted
  · exact absurd hholds (not_holds_of_none (hend a) fd)
  · exact hsettled

/-- A descriptor is moved, assigned to itself, released and adopted again, and closed by the
last assignment; its number is then used again. -/
theorem ownership_linear_moves :
    let actions : List (Action Bool) :=
      [.opens 3, .construct true 3, .moveConstruct false true, .moveAssign false false,
        .reset false 3, .release false, .reset true 3, .opens 4, .reset false 4,
        .moveAssign true false, .opens 3, .destroy false, .destroy true, .close 3]
    machine.Meets ClosesOwn {} actions ∧
      (∀ before, before <+: actions → (machine.run {} before).Linear) ∧
      ((∀ a, (machine.run {} actions).objects a = none) →
        ∀ opening owner, .adopted owner opening ∈ (machine.run {} actions).log →
          (machine.run {} actions).Settled opening) :=
  ownership_linear _ (by decide)

end ScopedFds

end TinyKv
