import Mathlib.Data.List.DropRight
import Mathlib.Data.List.Infix

/-!
# Words and gaps

A text over any alphabet with a set of separators. Its words are the maximal runs that
hold no separator; what stands between them are gaps. The lemmas follow the words of a
text through its concatenations, and cut a text at its words.
-/

namespace TinyKv.Foundation

variable {α : Type*} {p : α → Bool}

/-- A run of separators. -/
def IsGap (p : α → Bool) (text : List α) : Prop := ∀ ch ∈ text, p ch = true

instance decidableIsGap (p : α → Bool) (text : List α) : Decidable (IsGap p text) :=
  inferInstanceAs (Decidable (∀ ch ∈ text, p ch = true))

/-- A non-empty run without separators. -/
structure IsWord (p : α → Bool) (text : List α) : Prop where
  nonempty : text ≠ []
  plain : ∀ ch ∈ text, p ch = false

/-- A non-empty text with separators neither at its beginning nor at its end. -/
structure Trimmed (p : α → Bool) (text : List α) : Prop where
  nonempty : text ≠ []
  first : ∀ ch rest, text = ch :: rest → p ch = false
  last : ∀ before ch, text = before ++ [ch] → p ch = false

/-- The words of a text, from left to right. -/
def words (p : α → Bool) (text : List α) : List (List α) :=
  (text.splitOnP p).filter fun word => !word.isEmpty

/-! ### Gaps, words and trimmed texts -/

theorem IsGap.dropWhile_append {gap : List α} (h : IsGap p gap) (text : List α) :
    (gap ++ text).dropWhile p = text.dropWhile p :=
  List.dropWhile_append_of_pos h

theorem IsGap.rdropWhile_append {gap : List α} (h : IsGap p gap) (text : List α) :
    (text ++ gap).rdropWhile p = text.rdropWhile p := by
  rw [List.rdropWhile, List.rdropWhile, List.reverse_append, List.dropWhile_append_of_pos]
  intro ch hch
  exact h ch (List.mem_reverse.mp hch)

theorem Trimmed.dropWhile_append {text : List α} (h : Trimmed p text) (more : List α) :
    (text ++ more).dropWhile p = text ++ more := by
  obtain ⟨ch, rest, rfl⟩ := List.exists_cons_of_ne_nil h.nonempty
  exact List.dropWhile_cons_of_neg (by rw [h.first ch rest rfl]; exact Bool.false_ne_true)

theorem Trimmed.rdropWhile {text : List α} (h : Trimmed p text) : text.rdropWhile p = text := by
  rw [List.rdropWhile_eq_self_iff]
  intro hne
  rw [h.last _ _ (List.dropLast_append_getLast hne).symm]
  exact Bool.false_ne_true

theorem IsWord.trimmed {word : List α} (h : IsWord p word) : Trimmed p word where
  nonempty := h.nonempty
  first ch _ heq := h.plain ch (heq ▸ List.mem_cons_self ..)
  last _ ch heq := h.plain ch (heq ▸ List.mem_append_right _ (List.mem_cons_self ..))

/-- Words may be joined to the front of a text that ends without a separator. -/
theorem Trimmed.join {text more : List α} (h : Trimmed p text) (h' : Trimmed p more)
    (gap : List α) : Trimmed p (text ++ gap ++ more) where
  nonempty heq := h.nonempty (List.append_eq_nil_iff.mp (List.append_eq_nil_iff.mp heq).1).1
  first ch rest heq := by
    obtain ⟨head, tail, rfl⟩ := List.exists_cons_of_ne_nil h.nonempty
    rw [← (List.cons.inj heq).1]
    exact h.first head tail rfl
  last before ch heq := by
    obtain ⟨front, final, rfl⟩ := (List.eq_nil_or_concat more).resolve_left h'.nonempty
    rw [List.concat_eq_append, ← List.append_assoc] at heq
    rw [← List.singleton_inj.mp (List.append_inj_right' heq rfl)]
    exact h'.last front final (List.concat_eq_append ..)

/-! ### The words of a concatenation -/

@[simp] theorem words_nil : words p ([] : List α) = [] := by
  simp [words]

theorem words_cons_separator {ch : α} (h : p ch = true) (text : List α) :
    words p (ch :: text) = words p text := by
  have hsplit := List.splitOnP_append_cons [] text h
  simp only [List.nil_append, List.splitOnP_nil] at hsplit
  rw [words, hsplit]
  simp [words]

theorem words_append_separator {ch : α} (h : p ch = true) (text more : List α) :
    words p (text ++ ch :: more) = words p text ++ words p more := by
  rw [words, List.splitOnP_append_cons text more h, List.filter_append]
  rfl

theorem IsWord.words_eq {word : List α} (h : IsWord p word) : words p word = [word] := by
  rw [words, List.splitOnP_eq_singleton h.plain]
  simp [h.nonempty]

theorem IsGap.words_append {gap : List α} (h : IsGap p gap) (text : List α) :
    words p (gap ++ text) = words p text := by
  induction gap with
  | nil => rfl
  | cons ch rest ih =>
      rw [List.cons_append, words_cons_separator (h ch (List.mem_cons_self ..))]
      exact ih fun ch hch => h ch (List.mem_cons_of_mem _ hch)

theorem IsGap.words_eq {gap : List α} (h : IsGap p gap) : words p gap = [] := by
  have hgap := h.words_append []
  rwa [List.append_nil, words_nil] at hgap

/-- The words before and after a gap. -/
theorem IsGap.words_between {gap : List α} (h : IsGap p gap) (hne : gap ≠ [])
    (text more : List α) : words p (text ++ gap ++ more) = words p text ++ words p more := by
  obtain ⟨ch, rest, rfl⟩ := List.exists_cons_of_ne_nil hne
  rw [List.append_assoc, List.cons_append, words_append_separator (h ch (List.mem_cons_self ..))]
  rw [IsGap.words_append fun ch hch => h ch (List.mem_cons_of_mem _ hch)]

theorem IsGap.words_append_right {gap : List α} (h : IsGap p gap) (text : List α) :
    words p (text ++ gap) = words p text := by
  by_cases hne : gap = []
  · rw [hne, List.append_nil]
  · have hbetween := h.words_between hne text []
    rwa [List.append_nil, words_nil, List.append_nil] at hbetween

/-! ### Cutting a text -/

theorem isGap_takeWhile (text : List α) : IsGap p (text.takeWhile p) :=
  fun _ hch => List.mem_takeWhile_imp hch

theorem isWord_takeWhile {text : List α} (h : text.dropWhile p ≠ []) :
    IsWord p ((text.dropWhile p).takeWhile (!p ·)) := by
  constructor
  · obtain ⟨ch, more, hcons⟩ := List.exists_cons_of_ne_nil h
    have hhead := List.head_dropWhile_not p h
    simp only [hcons, List.head_cons] at hhead
    rw [hcons, List.takeWhile_cons_of_pos (by simp [hhead])]
    exact fun heq => by cases heq
  · intro ch hch
    simpa using List.mem_takeWhile_imp hch

theorem dropWhile_plain (text : List α) :
    text.dropWhile (!p ·) = [] ∨ ∃ ch more, text.dropWhile (!p ·) = ch :: more ∧ p ch = true := by
  by_cases hend : text.dropWhile (!p ·) = []
  · exact .inl hend
  · obtain ⟨ch, more, hcons⟩ := List.exists_cons_of_ne_nil hend
    have hhead := List.head_dropWhile_not (!p ·) hend
    simp only [hcons, List.head_cons, Bool.not_eq_false'] at hhead
    exact .inr ⟨ch, more, hcons, hhead⟩

/-- The first word is the longest run without separators after the gap. -/
theorem words_of_dropWhile {text : List α} (h : text.dropWhile p ≠ []) :
    words p text = (text.dropWhile p).takeWhile (!p ·) ::
      words p ((text.dropWhile p).dropWhile (!p ·)) := by
  have hword := isWord_takeWhile h
  calc
    words p text = words p (text.takeWhile p ++ text.dropWhile p) := by
      rw [List.takeWhile_append_dropWhile]
    _ = words p (text.dropWhile p) := (isGap_takeWhile text).words_append _
    _ = words p ((text.dropWhile p).takeWhile (!p ·) ++ (text.dropWhile p).dropWhile (!p ·)) := by
      rw [List.takeWhile_append_dropWhile]
    _ = _ := by
      obtain hend | ⟨ch, more, hcons, hch⟩ := dropWhile_plain (p := p) (text.dropWhile p)
      · rw [hend, List.append_nil, hword.words_eq, words_nil]
      · rw [hcons, words_append_separator hch, hword.words_eq, words_cons_separator hch]
        rfl

/-- A text whose first word is known, cut behind this word. -/
theorem cut_of_words {text word : List α} {more : List (List α)}
    (h : words p text = word :: more) :
    ∃ gap rest, text = gap ++ word ++ rest ∧ IsGap p gap ∧ IsWord p word ∧
      (rest = [] ∨ ∃ ch tail, rest = ch :: tail ∧ p ch = true) ∧ words p rest = more := by
  have hne : text.dropWhile p ≠ [] := by
    intro hnil
    have hgap : IsGap p text := fun ch hch => List.dropWhile_eq_nil_iff.mp hnil ch hch
    rw [hgap.words_eq] at h
    cases h
  rw [words_of_dropWhile hne] at h
  obtain ⟨rfl, rfl⟩ := List.cons.inj h
  refine ⟨text.takeWhile p, _, ?_, isGap_takeWhile text, isWord_takeWhile hne,
    dropWhile_plain _, rfl⟩
  rw [List.append_assoc, List.takeWhile_append_dropWhile, List.takeWhile_append_dropWhile]

theorem isWord_of_mem_words {text word : List α} (h : word ∈ words p text) : IsWord p word := by
  generalize hlist : words p text = list at h
  induction list generalizing text with
  | nil => cases h
  | cons first more ih =>
      obtain ⟨gap, rest, -, -, hword, -, hrest⟩ := cut_of_words hlist
      obtain rfl | hmem := List.mem_cons.mp h
      · exact hword
      · exact ih hrest hmem

theorem isGap_of_words_nil {text : List α} (h : words p text = []) : IsGap p text := by
  by_contra hgap
  have hne : text.dropWhile p ≠ [] := fun hnil =>
    hgap fun ch hch => List.dropWhile_eq_nil_iff.mp hnil ch hch
  rw [words_of_dropWhile hne] at h
  cases h

theorem Trimmed.words_ne_nil {text : List α} (h : Trimmed p text) : words p text ≠ [] := by
  intro hnil
  obtain ⟨ch, rest, heq⟩ := List.exists_cons_of_ne_nil h.nonempty
  have hsep := isGap_of_words_nil hnil ch (heq ▸ List.mem_cons_self ..)
  rw [h.first ch rest heq] at hsep
  cases hsep

/-- What follows a word and still has a word begins with a gap. -/
theorem gap_before_word {rest gap word more : List α} (hrest : rest = gap ++ word ++ more)
    (hword : IsWord p word) (hstop : rest = [] ∨ ∃ ch tail, rest = ch :: tail ∧ p ch = true) :
    gap ≠ [] := by
  rintro rfl
  obtain ⟨first, tail, rfl⟩ := List.exists_cons_of_ne_nil hword.nonempty
  obtain hnil | ⟨ch, tail', hcons, hch⟩ := hstop
  · rw [hnil] at hrest
    cases hrest
  · rw [hcons] at hrest
    rw [(List.cons.inj hrest).1, hword.plain first (List.mem_cons_self ..)] at hch
    cases hch

/-- A text that begins with a word, cut behind its last word. -/
theorem trimmed_append_gap {word : List α} (h : IsWord p word) (rest : List α) :
    ∃ text gap, word ++ rest = text ++ gap ∧ Trimmed p text ∧ IsGap p gap := by
  refine ⟨(word ++ rest).rdropWhile p, (word ++ rest).rtakeWhile p,
    List.rdropWhile_append_rtakeWhile.symm, ?_, fun _ hch => List.mem_rtakeWhile_imp hch⟩
  obtain ⟨first, tail, rfl⟩ := List.exists_cons_of_ne_nil h.nonempty
  have hfirst : p first = false := h.plain first (List.mem_cons_self ..)
  have hne : ((first :: tail) ++ rest).rdropWhile p ≠ [] := by
    intro hnil
    have hall := List.rdropWhile_eq_nil_iff.mp hnil first (List.mem_cons_self ..)
    rw [hfirst] at hall
    cases hall
  refine ⟨hne, fun ch more heq => ?_, fun before ch heq => ?_⟩
  · obtain ⟨gap, hcut⟩ := List.rdropWhile_prefix p (l := (first :: tail) ++ rest)
    rw [heq, List.cons_append, List.cons_append] at hcut
    rw [(List.cons.inj hcut).1]
    exact hfirst
  · have hlast := List.rdropWhile_last_not p _ hne
    simp only [heq, List.getLast_append_singleton] at hlast
    exact Bool.eq_false_iff.mpr hlast

/-- The text behind the second of at least three words, without its final gap. -/
theorem cut_behind_two_words {text first second third : List α} {more : List (List α)}
    (h : words p text = first :: second :: third :: more) :
    ∃ lead gap gap' tail trail, text = lead ++ first ++ gap ++ second ++ gap' ++ tail ++ trail ∧
      IsGap p lead ∧ IsWord p first ∧ IsGap p gap ∧ gap ≠ [] ∧ IsWord p second ∧
      IsGap p gap' ∧ gap' ≠ [] ∧ Trimmed p tail ∧ IsGap p trail := by
  obtain ⟨lead, rest, htext, hlead, hfirst, hstop, hrest⟩ := cut_of_words h
  obtain ⟨gap, rest', htext', hgap, hsecond, hstop', hrest'⟩ := cut_of_words hrest
  obtain ⟨gap', rest'', htext'', hgap', hthird, -, -⟩ := cut_of_words hrest'
  obtain ⟨tail, trail, hcut, htail, htrail⟩ := trimmed_append_gap hthird rest''
  refine ⟨lead, gap, gap', tail, trail, ?_, hlead, hfirst, hgap,
    gap_before_word htext' hsecond hstop, hsecond, hgap',
    gap_before_word htext'' hthird hstop', htail, htrail⟩
  rw [htext, htext', htext'', List.append_assoc gap' third rest'', hcut]
  simp only [List.append_assoc]

end TinyKv.Foundation
