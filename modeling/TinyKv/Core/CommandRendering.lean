import TinyKv.Core.CommandGrammar

/-!
# The text of a command

A well-formed command has many texts: its name in any letter case, gaps of any length.
`ParseCommand` reads it back from each of them, and what it reads from any line is
well formed.
-/

namespace TinyKv

open Foundation

namespace CommandGrammar

/-- The fields of a command are those its type has, with contents a line can carry. -/
def WellFormedCommand (cmd : Command) : Prop :=
  match cmd.type with
  | .get | .del | .ttl => IsWord separator cmd.key ∧ cmd.value = [] ∧ cmd.seconds = 0
  | .set => IsWord separator cmd.key ∧ Trimmed separator cmd.value ∧ cmd.seconds = 0
  | .expire =>
      IsWord separator cmd.key ∧ cmd.value = [] ∧ 1 ≤ cmd.seconds.toInt ∧
        cmd.seconds.toInt ≤ 2 ^ 31 - 1
  | _ => cmd.key = [] ∧ cmd.value = [] ∧ cmd.seconds = 0

/-- How a command is written: the spelling of its name and the gaps. -/
structure Layout where
  lead : Bytes
  name : Bytes
  first : Bytes
  second : Bytes
  trail : Bytes

/-- The layout writes a command of the type. -/
structure Layout.Fits (layout : Layout) (type : CommandType) : Prop where
  lead : IsGap separator layout.lead
  named : Named layout.name (commandName type)
  first : IsGap separator layout.first
  first_nonempty : layout.first ≠ []
  second : IsGap separator layout.second
  second_nonempty : layout.second ≠ []
  trail : IsGap separator layout.trail

/-- The text behind the name. -/
def renderArguments (layout : Layout) (cmd : Command) : Bytes :=
  match cmd.type with
  | .get | .del | .ttl => layout.first ++ cmd.key
  | .set => layout.first ++ cmd.key ++ layout.second ++ cmd.value
  | .expire => layout.first ++ cmd.key ++ layout.second ++ intText cmd.seconds.toInt
  | _ => []

/-- The text of a command. -/
def render (layout : Layout) (cmd : Command) : Bytes :=
  layout.lead ++ (layout.name ++ renderArguments layout cmd) ++ layout.trail

/-- Capital letters and single spaces. -/
def canonical (type : CommandType) : Layout where
  lead := []
  name := ascii (commandName type)
  first := [32]
  second := [32]
  trail := []

end CommandGrammar

namespace CommandParser

open CommandGrammar

/-! ### Names and numbers as words -/

theorem separator_of_graphic {ch : UInt8} (h : 33 ≤ ch.toNat) : separator ch = false := by
  rw [← isSpace_eq_separator, isSpace]
  simp only [Bool.or_eq_false_iff, beq_eq_false_iff_ne, ne_eq, Bool.and_eq_false_iff,
    decide_eq_false_iff_not, UInt8.le_iff_toNat_le, ← UInt8.toNat_inj, UInt8.reduceToNat]
  omega

theorem isWord_of_named {word : Bytes} {type : CommandType} (hne : type ≠ .unknown)
    (h : Named word (commandName type)) : IsWord separator word := by
  constructor
  · rintro rfl
    have hnil : ascii (commandName type) = [] := List.forall₂_nil_left_iff.mp h
    cases type with
    | unknown => exact hne rfl
    | _ => exact absurd hnil (by decide)
  · intro ch hch
    have hletters := letters_commandName type
    obtain ⟨i, hi, rfl⟩ := List.getElem_of_mem hch
    have hletter : i < (ascii (commandName type)).length := h.length_eq ▸ hi
    have hsame := (List.forall₂_iff_get.mp h).2 i hi hletter
    have hrange := hletters _ (List.getElem_mem hletter)
    simp only [List.get_eq_getElem] at hsame
    apply separator_of_graphic
    obtain hsame | hsame := hsame
    · rw [hsame]
      omega
    · rw [hsame, UInt8.toNat_add]
      simp only [UInt8.reduceToNat]
      omega

theorem toNat_ofNat_digit {ch : Char} (h : ch.isDigit = true) :
    (UInt8.ofNat ch.toNat).toNat = ch.toNat ∧ 48 ≤ ch.toNat ∧ ch.toNat ≤ 57 := by
  simp only [Char.isDigit, Bool.and_eq_true, decide_eq_true_eq, ge_iff_le,
    UInt32.le_iff_toNat_le] at h
  change 48 ≤ ch.toNat ∧ ch.toNat ≤ 57 at h
  refine ⟨?_, h⟩
  rw [UInt8.toNat_ofNat']
  omega

theorem decimal_map_digits {chars : List Char} (h : ∀ ch ∈ chars, ch.isDigit = true)
    (number : Nat) :
    decimalFrom number (chars.map fun ch => UInt8.ofNat ch.toNat) =
      Nat.ofDigitChars 10 chars number := by
  induction chars generalizing number with
  | nil => rfl
  | cons ch rest ih =>
      rw [List.map_cons, Nat.ofDigitChars_cons, ← ih fun c hc => h c (List.mem_cons_of_mem _ hc)]
      change decimalFrom (10 * number + ((UInt8.ofNat ch.toNat).toNat - 48)) _ = _
      rw [(toNat_ofNat_digit (h ch (List.mem_cons_self ..))).1]
      rfl

/-- `std::to_string` of a positive number is read back by `ParsePositiveInt`. -/
theorem seconds_intText {seconds : Int} (hpositive : 1 ≤ seconds)
    (hbound : seconds ≤ 2 ^ 31 - 1) :
    Seconds (intText seconds) ∧ (decimal (intText seconds) : Int) = seconds := by
  obtain ⟨n, rfl⟩ := Int.eq_ofNat_of_zero_le (Int.le_trans (by decide) hpositive)
  have htext : intText n = (Nat.toDigits 10 n).map fun ch => UInt8.ofNat ch.toNat := by
    rw [intText, ascii]
    change (Nat.repr n).toList.map _ = _
    rw [Nat.toList_repr]
  have hdigit : ∀ ch ∈ Nat.toDigits 10 n, ch.isDigit = true := fun ch hch =>
    Nat.isDigit_of_mem_toDigits (by decide) (by decide) hch
  have hvalue : decimal (intText n) = n := by
    rw [htext]
    exact (decimal_map_digits hdigit 0).trans Nat.ofDigitChars_ten_toDigits
  refine ⟨⟨?_, by omega, by omega⟩, by rw [hvalue]⟩
  intro ch hch
  rw [htext] at hch
  obtain ⟨c, hc, rfl⟩ := List.mem_map.mp hch
  have hrange := toNat_ofNat_digit (hdigit c hc)
  omega

theorem isWord_of_seconds {word : Bytes} (h : Seconds word) : IsWord separator word := by
  constructor
  · rintro rfl
    exact absurd h.positive (by decide)
  · intro ch hch
    apply separator_of_graphic
    have hrange := h.digits ch hch
    omega

/-! ### Reading a text back -/

theorem Parses.type_eq {line : Bytes} {cmd cmd' : Command} (h : Parses line cmd)
    (h' : Parses line cmd') : cmd.type = cmd'.type := by
  by_cases hunknown : cmd.type = .unknown
  · by_contra hne
    apply h.complete hunknown cmd'.type
    apply h'.accepted
    rintro hunknown'
    exact hne (hunknown.trans hunknown'.symm)
  · by_cases hunknown' : cmd'.type = .unknown
    · exact absurd (h.accepted hunknown) (h'.complete hunknown' cmd.type)
    · exact accepts_unique (h.accepted hunknown) (h'.accepted hunknown')

theorem fields_unique {line : Bytes} {cmd cmd' : Command} (htype : cmd.type = cmd'.type)
    (h : Fields line cmd) (h' : Fields line cmd') :
    cmd.key = cmd'.key ∧ cmd.value = cmd'.value ∧ cmd.seconds = cmd'.seconds := by
  unfold Fields at h h'
  rw [← htype] at h'
  generalize cmd.type = type at h h'
  cases type with
  | get | del | ttl =>
      obtain ⟨⟨word, hwords⟩, hvalue, hseconds⟩ := h
      obtain ⟨⟨word', hwords'⟩, hvalue', hseconds'⟩ := h'
      rw [hwords] at hwords'
      simp only [List.cons.injEq, and_true] at hwords'
      exact ⟨hwords'.2, hvalue.trans hvalue'.symm, hseconds.trans hseconds'.symm⟩
  | set =>
      obtain ⟨⟨word, rest, hwords⟩, hvalue, hseconds⟩ := h
      obtain ⟨⟨word', rest', hwords'⟩, hvalue', hseconds'⟩ := h'
      rw [hwords] at hwords'
      simp only [List.cons.injEq] at hwords'
      exact ⟨hwords'.2.1, (restAfterNWords_of_valueText hvalue).symm.trans
        (restAfterNWords_of_valueText hvalue'), hseconds.trans hseconds'.symm⟩
  | expire =>
      obtain ⟨⟨word, digits, hwords, hseconds⟩, hvalue⟩ := h
      obtain ⟨⟨word', digits', hwords', hseconds'⟩, hvalue'⟩ := h'
      rw [hwords] at hwords'
      simp only [List.cons.injEq, and_true] at hwords'
      obtain ⟨-, hkey, rfl⟩ := hwords'
      exact ⟨hkey, hvalue.trans hvalue'.symm,
        Int32.toInt_inj.mp (hseconds.trans hseconds'.symm)⟩
  | ping | stats | quit | help | unknown =>
      obtain ⟨hkey, hvalue, hseconds⟩ := h
      obtain ⟨hkey', hvalue', hseconds'⟩ := h'
      exact ⟨hkey.trans hkey'.symm, hvalue.trans hvalue'.symm, hseconds.trans hseconds'.symm⟩

/-- The grammar determines the command. -/
theorem parses_unique {line : Bytes} {cmd cmd' : Command} (h : Parses line cmd)
    (h' : Parses line cmd') : cmd = cmd' := by
  have htype := h.type_eq h'
  have hraw : cmd.raw = cmd'.raw := h.raw.trans h'.raw.symm
  obtain ⟨hkey, hvalue, hseconds⟩ := fields_unique htype h.fields h'.fields
  cases cmd
  cases cmd'
  simp only at htype hraw hkey hvalue hseconds
  rw [htype, hraw, hkey, hvalue, hseconds]

section Rendering

variable {layout : Layout} {cmd : Command} (hfits : layout.Fits cmd.type)
include hfits

theorem lineWords_render :
    lineWords (render layout cmd) = lineWords (layout.name ++ renderArguments layout cmd) := by
  rw [lineWords, render, hfits.trail.words_append_right, hfits.lead.words_append]
  rfl

/-- The words of a name, a gap and more text. -/
theorem lineWords_name (hne : cmd.type ≠ .unknown) (text : Bytes) :
    lineWords (layout.name ++ layout.first ++ text) = layout.name :: lineWords text := by
  have hname := isWord_of_named hne hfits.named
  rw [lineWords, hfits.first.words_between hfits.first_nonempty, hname.words_eq]
  rfl

theorem lineWords_second {key : Bytes} (hkey : IsWord separator key) (text : Bytes) :
    lineWords (key ++ layout.second ++ text) = key :: lineWords text := by
  rw [lineWords, hfits.second.words_between hfits.second_nonempty, hkey.words_eq]
  rfl

/-- The text of a command is a text of this command. -/
theorem parses_render (hne : cmd.type ≠ .unknown) (hcmd : WellFormedCommand cmd) :
    Parses (render layout cmd) { cmd with raw := render layout cmd } := by
  have hname := isWord_of_named hne hfits.named
  have hwords := lineWords_render hfits
  have hrender : render layout cmd =
      layout.lead ++ (layout.name ++ renderArguments layout cmd) ++ layout.trail := rfl
  have haccepts {args : List Bytes} (hline : lineWords (render layout cmd) = layout.name :: args)
      (hargs : Arguments cmd.type args) : Accepts (render layout cmd) cmd.type :=
    ⟨layout.name, args, hline, hfits.named, hargs⟩
  have hfirst := lineWords_name hfits hne
  have hsecond {key : Bytes} (hkey : IsWord separator key) (text : Bytes) :=
    lineWords_second hfits hkey text
  unfold WellFormedCommand at hcmd
  unfold renderArguments at hwords hrender
  generalize render layout cmd = line at hwords hrender haccepts ⊢
  obtain ⟨type, key, value, seconds, raw⟩ := cmd
  simp only at hcmd hwords hrender haccepts hne
  cases type with
  | unknown => exact absurd rfl hne
  | ping | stats | quit | help =>
      simp only at hcmd hwords
      have hone : lineWords layout.name = [layout.name] := hname.words_eq
      rw [List.append_nil, hone] at hwords
      exact parses_of_accepts rfl hcmd (haccepts hwords rfl)
  | get | del | ttl =>
      obtain ⟨hkey, hvalue, hseconds⟩ := hcmd
      simp only at hwords
      have hone : lineWords key = [key] := hkey.words_eq
      rw [← List.append_assoc, hfirst, hone] at hwords
      exact parses_of_accepts rfl ⟨⟨layout.name, hwords⟩, hvalue, hseconds⟩ (haccepts hwords rfl)
  | set =>
      obtain ⟨hkey, hvalue, hseconds⟩ := hcmd
      simp only [List.append_assoc] at hwords hrender
      rw [← List.append_assoc key, ← List.append_assoc layout.name, hfirst, hsecond hkey] at hwords
      have hsome : 0 < (lineWords value).length :=
        List.length_pos_of_ne_nil hvalue.words_ne_nil
      have htext := valueText_append hfits.lead hname hfits.first hfits.first_nonempty hkey
        hfits.second hfits.second_nonempty hvalue hfits.trail
      refine parses_of_accepts rfl ⟨⟨layout.name, _, hwords⟩, ?_, hseconds⟩ (haccepts hwords ?_)
      · simpa only [hrender, List.append_assoc] using htext
      · change 2 ≤ (key :: lineWords value).length
        rw [List.length_cons]
        omega
  | expire =>
      obtain ⟨hkey, hvalue, hpositive, hbound⟩ := hcmd
      obtain ⟨hdigits, hdecimal⟩ := seconds_intText hpositive hbound
      simp only [List.append_assoc] at hwords
      have hone : lineWords (intText seconds.toInt) = [intText seconds.toInt] :=
        (isWord_of_seconds hdigits).words_eq
      rw [← List.append_assoc key, ← List.append_assoc layout.name, hfirst, hsecond hkey, hone]
        at hwords
      exact parses_of_accepts rfl ⟨⟨layout.name, _, hwords, hdecimal.symm⟩, hvalue⟩
        (haccepts hwords ⟨key, _, rfl, hdigits⟩)

end Rendering

theorem fits_canonical (type : CommandType) : (canonical type).Fits type where
  lead _ hch := by cases hch
  named := by
    apply upperCopy_commandName.mp
    cases type <;> decide
  first ch hch := by
    rw [List.mem_singleton.mp hch]
    decide
  first_nonempty := by simp [canonical]
  second ch hch := by
    rw [List.mem_singleton.mp hch]
    decide
  second_nonempty := by simp [canonical]
  trail _ hch := by cases hch

/-- What `ParseCommand` reads is well formed. -/
theorem Parses.wellFormedCommand {line : Bytes} {cmd : Command} (h : Parses line cmd) :
    WellFormedCommand cmd := by
  have hfields := h.fields
  have haccepted := h.accepted
  unfold Fields at hfields
  unfold WellFormedCommand
  have hword {key : Bytes} (hmem : key ∈ lineWords line) : IsWord separator key :=
    isWord_of_mem_words hmem
  cases htype : cmd.type with
  | ping | stats | quit | help | unknown =>
      rw [htype] at hfields
      exact hfields
  | get | del | ttl =>
      rw [htype] at hfields
      obtain ⟨⟨word, hwords⟩, hrest⟩ := hfields
      exact ⟨hword (by simp [hwords]), hrest⟩
  | set =>
      rw [htype] at hfields
      obtain ⟨⟨word, rest, hwords⟩, ⟨_, _, _, _, _, _, hvalue, _⟩, hseconds⟩ := hfields
      exact ⟨hword (by simp [hwords]), hvalue, hseconds⟩
  | expire =>
      rw [htype] at hfields haccepted
      obtain ⟨⟨word, digits, hwords, hseconds⟩, hvalue⟩ := hfields
      obtain ⟨word', args, hwords', -, key, digits', hargs, hdigits⟩ := haccepted nofun
      rw [hwords, hargs] at hwords'
      simp only [List.cons.injEq, and_true] at hwords'
      obtain ⟨-, -, rfl⟩ := hwords'
      have hpositive := hdigits.positive
      have hbound := hdigits.bounded
      exact ⟨hword (by simp [hwords]), hvalue, by omega, by omega⟩

/-- Commands and their texts: a well-formed command is read back from each of its texts;
what is read from any line is well formed, and its canonical text is read as the same
command. -/
theorem parseCommand_render :
    (∀ (cmd : Command) (layout : Layout), cmd.type ≠ .unknown → WellFormedCommand cmd →
      layout.Fits cmd.type →
        parseCommand (render layout cmd) = { cmd with raw := render layout cmd }) ∧
    ∀ line : Bytes, (parseCommand line).type ≠ .unknown →
      WellFormedCommand (parseCommand line) ∧
        let text := render (canonical (parseCommand line).type) (parseCommand line)
        parseCommand text = { parseCommand line with raw := text } := by
  have hread (cmd : Command) (layout : Layout) (hne : cmd.type ≠ .unknown)
      (hcmd : WellFormedCommand cmd) (hfits : layout.Fits cmd.type) :
      parseCommand (render layout cmd) = { cmd with raw := render layout cmd } :=
    parses_unique (parses_parseCommand _) (parses_render hfits hne hcmd)
  refine ⟨hread, fun line hne => ?_⟩
  have hcmd := (parses_parseCommand line).wellFormedCommand
  exact ⟨hcmd, hread _ _ hne hcmd (fits_canonical _)⟩

/-- A value with spaces inside. -/
def spacedSet : Command := { type := .set, key := ascii "k", value := ascii "a  b" }

/-- A name in mixed case, and gaps of all kinds. -/
def loosely : Layout := ⟨ascii " ", ascii "sEt", ascii "\t ", ascii "  ", ascii "\r\n"⟩

theorem wellFormedCommand_spacedSet : WellFormedCommand spacedSet := by
  have hletter {ch : UInt8} (h : separator ch = false) : IsWord separator [ch] :=
    ⟨by simp, fun other hmem => List.mem_singleton.mp hmem ▸ h⟩
  have hfirst : IsWord separator (ascii "a") := hletter (by decide)
  have hlast : IsWord separator (ascii "b") := hletter (by decide)
  exact ⟨hletter (by decide), hfirst.trimmed.join hlast.trimmed (ascii "  "), rfl⟩

theorem fits_loosely : loosely.Fits .set :=
  ⟨by decide, upperCopy_commandName.mp (by decide), by decide, by decide, by decide, by decide,
    by decide⟩

/-- The text is read back, and so is the canonical one of what has been read. -/
theorem parseCommand_render_spacedSet :
    parseCommand (ascii " sEt\t k  a  b\r\n") =
        { spacedSet with raw := ascii " sEt\t k  a  b\r\n" } ∧
      parseCommand (ascii "SET k a  b") = { spacedSet with raw := ascii "SET k a  b" } := by
  have hread : parseCommand (render loosely spacedSet) =
      { spacedSet with raw := render loosely spacedSet } :=
    parseCommand_render.1 spacedSet loosely (by decide) wellFormedCommand_spacedSet fits_loosely
  have hcanonical := (parseCommand_render.2 (render loosely spacedSet) (by rw [hread]; decide)).2
  rw [hread] at hcanonical
  exact ⟨hread, hcanonical⟩

end CommandParser

end TinyKv
