import TinyKv.Core.CommandParser
import TinyKv.Foundation.Words
import Mathlib.Data.List.Forall2

/-!
# The grammar of the commands

A line is a command by its words, by the number of its arguments, and for EXPIRE by the
value of a decimal number; the value of a SET is the text behind the key. `ParseCommand`
finds the words twice, by stream extraction and by an index loop, and trims twice; it
accepts exactly this grammar.
-/

namespace TinyKv

open Foundation

/-! ### The grammar -/

namespace CommandGrammar

/-- The white-space characters of the C locale. -/
def whitespace : List UInt8 := [9, 10, 11, 12, 13, 32]

/-- A white-space character. -/
def separator (ch : UInt8) : Bool := decide (ch ∈ whitespace)

/-- The words of a line. -/
def lineWords (line : Bytes) : List Bytes := words separator line

/-- The name of a command. -/
def commandName : CommandType → String
  | .ping => "PING"
  | .set => "SET"
  | .get => "GET"
  | .del => "DEL"
  | .expire => "EXPIRE"
  | .ttl => "TTL"
  | .stats => "STATS"
  | .quit => "QUIT"
  | .help => "HELP"
  | .unknown => ""

/-- The word is the name, a string of capital letters, ignoring ASCII case. -/
def Named (word : Bytes) (name : String) : Prop :=
  List.Forall₂ (fun ch letter => ch = letter ∨ ch = letter + 32) word (ascii name)

/-- The number that a string of digits denotes. -/
def decimal (digits : Bytes) : Nat :=
  digits.foldl (fun number ch => 10 * number + (ch.toNat - 48)) 0

/-- A number of seconds: ASCII digits whose value is a positive `int`. -/
structure Seconds (word : Bytes) : Prop where
  digits : ∀ ch ∈ word, 48 ≤ ch.toNat ∧ ch.toNat ≤ 57
  positive : 1 ≤ decimal word
  bounded : decimal word ≤ 2 ^ 31 - 1

/-- The words behind the name are arguments of the command. -/
def Arguments : CommandType → List Bytes → Prop
  | .ping, args | .stats, args | .quit, args | .help, args => args = []
  | .get, args | .del, args | .ttl, args => args.length = 1
  | .set, args => 2 ≤ args.length
  | .expire, args => ∃ key digits, args = [key, digits] ∧ Seconds digits
  | .unknown, _ => False

/-- The line is a command of the type. -/
def Accepts (line : Bytes) (type : CommandType) : Prop :=
  ∃ word args, lineWords line = word :: args ∧ Named word (commandName type) ∧
    Arguments type args

/-- The value of a line is what stands between a part with two words that ends in white
space and a part of white space, and neither begins nor ends with white space. -/
def ValueText (line value : Bytes) : Prop :=
  ∃ before ch after, line = before ++ [ch] ++ value ++ after ∧
    (lineWords (before ++ [ch])).length = 2 ∧ separator ch = true ∧ Trimmed separator value ∧
    IsGap separator after

/-- The fields of a command that depend on its type. -/
def Fields (line : Bytes) (cmd : Command) : Prop :=
  match cmd.type with
  | .get | .del | .ttl =>
      (∃ word, lineWords line = [word, cmd.key]) ∧ cmd.value = [] ∧ cmd.seconds = 0
  | .set =>
      (∃ word rest, lineWords line = word :: cmd.key :: rest) ∧ ValueText line cmd.value ∧
        cmd.seconds = 0
  | .expire =>
      (∃ word digits, lineWords line = [word, cmd.key, digits] ∧
        cmd.seconds.toInt = decimal digits) ∧ cmd.value = []
  | _ => cmd.key = [] ∧ cmd.value = [] ∧ cmd.seconds = 0

end CommandGrammar

namespace CommandParser

open CommandGrammar

/-! ### The two tokenizers -/

theorem isSpace_eq_separator : isSpace = separator := by
  funext ch
  simp only [isSpace, separator, whitespace, List.mem_cons, List.not_mem_nil, or_false]
  rw [Bool.eq_iff_iff]
  simp only [Bool.or_eq_true, beq_iff_eq, Bool.and_eq_true, decide_eq_true_eq,
    UInt8.le_iff_toNat_le, ← UInt8.toNat_inj, UInt8.reduceToNat]
  omega

/-- Stream extraction takes the words one by one; by induction on their number. -/
theorem splitWordsLoop_eq {fuel : Nat} {input : Bytes} (h : input.length ≤ fuel) :
    splitWordsLoop fuel input = words isSpace input := by
  induction fuel generalizing input with
  | zero =>
      rw [List.length_eq_zero_iff.mp (Nat.le_zero.mp h), words_nil]
      rfl
  | succ fuel ih =>
      rw [splitWordsLoop, extractWord]
      by_cases hnil : input.dropWhile isSpace = []
      · have hgap : IsGap isSpace input := fun ch hch => List.dropWhile_eq_nil_iff.mp hnil ch hch
        simp only [hnil, if_true]
        exact hgap.words_eq.symm
      · simp only [if_neg hnil]
        rw [words_of_dropWhile hnil, ih]
        have hshorter := length_dropWhile_dropWhile (q := (!isSpace ·)) (by simp) hnil
        have hgap := List.length_dropWhile_le isSpace input
        omega

theorem splitWords_eq (text : Bytes) : splitWords text = words isSpace text :=
  splitWordsLoop_eq (Nat.le_refl _)

/-- `Trim` leaves the text between two gaps. -/
theorem trim_append {lead text trail : Bytes} (hlead : IsGap isSpace lead)
    (htext : Trimmed isSpace text) (htrail : IsGap isSpace trail) :
    trim (lead ++ text ++ trail) = text := by
  rw [trim, List.append_assoc, hlead.dropWhile_append, htext.dropWhile_append,
    htrail.rdropWhile_append, htext.rdropWhile]

theorem exists_trim (line : Bytes) :
    ∃ lead trail, line = lead ++ trim line ++ trail ∧ IsGap isSpace lead ∧
      IsGap isSpace trail := by
  refine ⟨line.takeWhile isSpace, (line.dropWhile isSpace).rtakeWhile isSpace, ?_,
    isGap_takeWhile line, fun _ hch => List.mem_rtakeWhile_imp hch⟩
  rw [trim, List.append_assoc, List.rdropWhile_append_rtakeWhile,
    List.takeWhile_append_dropWhile]

theorem words_trim (line : Bytes) : words isSpace (trim line) = words isSpace line := by
  obtain ⟨lead, trail, hline, hlead, htrail⟩ := exists_trim line
  conv_rhs => rw [hline]
  rw [htrail.words_append_right, hlead.words_append]

/-- The index loop passes one word and the gap before it. -/
theorem skipWords_append (count : Nat) {gap word rest : Bytes} (hgap : IsGap isSpace gap)
    (hword : IsWord isSpace word)
    (hstop : rest = [] ∨ ∃ ch tail, rest = ch :: tail ∧ isSpace ch = true) :
    skipWords (count + 1) (gap ++ word ++ rest) = skipWords count rest := by
  have hdrop : (gap ++ word ++ rest).dropWhile isSpace = word ++ rest := by
    rw [List.append_assoc, hgap.dropWhile_append, hword.trimmed.dropWhile_append]
  have hrest : (word ++ rest).dropWhile (!isSpace ·) = rest := by
    rw [List.dropWhile_append_of_pos fun ch hch => by simp [hword.plain ch hch]]
    obtain rfl | ⟨ch, tail, rfl, hch⟩ := hstop
    · rfl
    · exact List.dropWhile_cons_of_neg (by simp [hch])
  rw [skipWords]
  simp only [hdrop]
  rw [if_neg (fun heq => hword.nonempty (List.append_eq_nil_iff.mp heq).1), hrest]

theorem gap_append {gap : Bytes} (h : IsGap isSpace gap) (hne : gap ≠ []) (rest : Bytes) :
    gap ++ rest = [] ∨ ∃ ch tail, gap ++ rest = ch :: tail ∧ isSpace ch = true := by
  obtain ⟨ch, tail, rfl⟩ := List.exists_cons_of_ne_nil hne
  exact .inr ⟨ch, tail ++ rest, rfl, h ch (List.mem_cons_self ..)⟩

/-- `RestAfterNWords` finds the text behind two words. -/
theorem restAfterNWords_append {word gap key gap' value : Bytes} (hword : IsWord isSpace word)
    (hgap : IsGap isSpace gap) (hne : gap ≠ []) (hkey : IsWord isSpace key)
    (hgap' : IsGap isSpace gap') (hne' : gap' ≠ []) (hvalue : Trimmed isSpace value) :
    restAfterNWords (word ++ gap ++ key ++ gap' ++ value) 2 = value := by
  have hskip : skipWords 2 (word ++ gap ++ key ++ gap' ++ value) = some (gap' ++ value) := by
    calc
      skipWords 2 (word ++ gap ++ key ++ gap' ++ value) =
          skipWords 2 ([] ++ word ++ (gap ++ key ++ (gap' ++ value))) := by
        simp only [List.nil_append, List.append_assoc]
      _ = skipWords 1 (gap ++ key ++ (gap' ++ value)) := by
        apply skipWords_append 1 (fun _ hch => by cases hch) hword
        rw [List.append_assoc]
        exact gap_append hgap hne _
      _ = skipWords 0 (gap' ++ value) :=
        skipWords_append 0 hgap hkey (gap_append hgap' hne' _)
      _ = some (gap' ++ value) := rfl
  have hdrop : (gap' ++ value).dropWhile isSpace = value := by
    have h := hvalue.dropWhile_append []
    rw [List.append_nil] at h
    rw [hgap'.dropWhile_append, h]
  have htrim : trim value = value := by
    have hnone : IsGap isSpace [] := fun _ hch => by cases hch
    have h := trim_append hnone hvalue hnone
    rwa [List.nil_append, List.append_nil] at h
  simp only [restAfterNWords, hskip, hdrop]
  rw [if_neg hvalue.nonempty, htrim]

/-! ### The value of a SET -/

/-- What stands behind two words is the value. -/
theorem valueText_append {lead word gap key gap' value trail : Bytes}
    (hlead : IsGap separator lead) (hword : IsWord separator word) (hgap : IsGap separator gap)
    (hne : gap ≠ []) (hkey : IsWord separator key) (hgap' : IsGap separator gap')
    (hne' : gap' ≠ []) (hvalue : Trimmed separator value) (htrail : IsGap separator trail) :
    ValueText (lead ++ word ++ gap ++ key ++ gap' ++ value ++ trail) value := by
  obtain ⟨front, ch, hlast⟩ := (List.eq_nil_or_concat gap').resolve_left hne'
  rw [List.concat_eq_append] at hlast
  refine ⟨lead ++ word ++ gap ++ key ++ front, ch, trail, ?_, ?_, ?_, hvalue, htrail⟩
  · rw [hlast]
    simp only [List.append_assoc]
  · have hbefore : lead ++ word ++ gap ++ key ++ front ++ [ch] =
        lead ++ (word ++ gap ++ key) ++ gap' := by
      rw [hlast]
      simp only [List.append_assoc]
    rw [lineWords, hbefore, hgap'.words_append_right, hlead.words_append,
      hgap.words_between hne, hword.words_eq, hkey.words_eq]
    rfl
  · exact hgap' ch (hlast ▸ List.mem_append_right _ (List.mem_cons_self ..))

/-- The value behind at least three words. -/
theorem valueText_restAfterNWords {line word key third : Bytes} {rest : List Bytes}
    (h : lineWords line = word :: key :: third :: rest) :
    ValueText line (restAfterNWords (trim line) 2) := by
  obtain ⟨lead, gap, gap', value, trail, hline, hlead, hword, hgap, hne, hkey, hgap', hne',
    hvalue, htrail⟩ := cut_behind_two_words h
  have htext := valueText_append hlead hword hgap hne hkey hgap' hne' hvalue htrail
  rw [← isSpace_eq_separator] at hlead hword hgap hkey hgap' hvalue htrail
  have htrim : trim line = word ++ gap ++ key ++ gap' ++ value := by
    rw [hline, ← trim_append hlead ((hword.trimmed.join hkey.trimmed gap).join hvalue gap') htrail]
    simp only [List.append_assoc]
  rw [htrim, restAfterNWords_append hword hgap hne hkey hgap' hne' hvalue, hline]
  exact htext

/-- A line has at most one value, the one that `RestAfterNWords` finds. -/
theorem restAfterNWords_of_valueText {line value : Bytes} (h : ValueText line value) :
    restAfterNWords (trim line) 2 = value := by
  obtain ⟨before, ch, after, rfl, hlength, hch, hvalue, hafter⟩ := h
  rw [lineWords, ← isSpace_eq_separator] at hlength
  rw [← isSpace_eq_separator] at hch hvalue hafter
  obtain ⟨word, key, hwords⟩ := List.length_eq_two.mp hlength
  obtain ⟨lead, rest, hbefore, hlead, hword, hstop, hrest⟩ := cut_of_words hwords
  obtain ⟨gap, gap', hrest', hgap, hkey, hstop', hnil⟩ := cut_of_words hrest
  have hne : gap ≠ [] := gap_before_word hrest' hkey hstop
  have hgap' : IsGap isSpace gap' := isGap_of_words_nil hnil
  have hne' : gap' ≠ [] := by
    rintro rfl
    have hlast : (before ++ [ch]).getLast? = key.getLast? := by
      rw [hbefore, hrest', List.append_nil, ← List.append_assoc,
        List.getLast?_append_of_ne_nil _ hkey.nonempty]
    rw [List.getLast?_concat] at hlast
    rw [hkey.plain ch (List.mem_of_getLast? hlast.symm)] at hch
    cases hch
  have hline : before ++ [ch] ++ value ++ after =
      lead ++ (word ++ gap ++ key ++ gap' ++ value) ++ after := by
    rw [hbefore, hrest']
    simp only [List.append_assoc]
  have htext : Trimmed isSpace (word ++ gap ++ key ++ gap' ++ value) :=
    (hword.trimmed.join hkey.trimmed gap).join hvalue gap'
  rw [hline, trim_append hlead htext hafter,
    restAfterNWords_append hword hgap hne hkey hgap' hne' hvalue]

/-! ### The number of an EXPIRE -/

/-- The number denoted by digits that follow those of `number`. -/
def decimalFrom (number : Nat) (digits : Bytes) : Nat :=
  digits.foldl (fun number ch => 10 * number + (ch.toNat - 48)) number

theorem le_decimalFrom (number : Nat) (digits : Bytes) : number ≤ decimalFrom number digits := by
  induction digits generalizing number with
  | nil => exact Nat.le_refl _
  | cons ch rest ih =>
      calc
        number ≤ 10 * number + (ch.toNat - 48) := by omega
        _ ≤ decimalFrom (10 * number + (ch.toNat - 48)) rest := ih _

theorem isDigit_iff (ch : UInt8) : isDigit ch = true ↔ 48 ≤ ch.toNat ∧ ch.toNat ≤ 57 := by
  simp [isDigit, UInt8.le_iff_toNat_le]

/-- The loop of `ParsePositiveInt` succeeds with the value, if it fits an `int`; by
induction on the digits, as the values on the way are smaller. -/
theorem parseDigits_eq_some_iff {number : Nat} (hnumber : number ≤ 2147483647) {digits : Bytes}
    {result : Int} :
    parseDigits number digits = some result ↔
      (∀ ch ∈ digits, isDigit ch = true) ∧ result = decimalFrom number digits ∧
        decimalFrom number digits ≤ 2147483647 := by
  induction digits generalizing number with
  | nil =>
      simp only [parseDigits, decimalFrom, List.foldl_nil, Option.some.injEq]
      constructor
      · rintro rfl
        exact ⟨fun _ hch => (by cases hch), rfl, hnumber⟩
      · rintro ⟨-, rfl, -⟩
        rfl
  | cons ch rest ih =>
      rw [parseDigits]
      by_cases hdigit : isDigit ch = true
      swap
      · simp [hdigit]
      have hvalue : (number : Int) * 10 + ((ch.toNat : Int) - 48) =
          ((10 * number + (ch.toNat - 48) : Nat) : Int) := by
        have hle := (isDigit_iff ch).mp hdigit
        omega
      have hstep : decimalFrom number (ch :: rest) =
          decimalFrom (10 * number + (ch.toNat - 48)) rest := rfl
      rw [if_pos hdigit, hstep]
      simp only [hvalue]
      split
      · next hlarge =>
        have hle := le_decimalFrom (10 * number + (ch.toNat - 48)) rest
        constructor
        · intro h
          cases h
        · rintro ⟨-, -, hsmall⟩
          omega
      · next hsmall =>
        rw [ih (by omega)]
        simp [hdigit]

theorem parseDigits_zero_eq_some_iff {digits : Bytes} {result : Int} :
    parseDigits 0 digits = some result ↔
      (∀ ch ∈ digits, isDigit ch = true) ∧ result = decimal digits ∧
        decimal digits ≤ 2147483647 :=
  parseDigits_eq_some_iff (Nat.zero_le _)

theorem parsePositiveInt_eq_some_iff {word : Bytes} {seconds : Int32} :
    parsePositiveInt word = some seconds ↔ Seconds word ∧ seconds.toInt = decimal word := by
  have hloop (result : Int) := @parseDigits_zero_eq_some_iff word result
  have hsigned {n : Nat} (hn : n ≤ 2147483647) : (Int32.ofInt n).toInt = n := by
    apply Int32.toInt_ofInt_of_le <;> omega
  unfold parsePositiveInt
  constructor
  · intro h
    split at h
    · cases h
    cases hresult : parseDigits 0 word with
    | none =>
        rw [hresult] at h
        cases h
    | some result =>
        obtain ⟨hdigits, rfl, hbound⟩ := (hloop result).mp hresult
        rw [hresult] at h
        simp only at h
        split at h
        · cases h
        next hpositive =>
          cases h
          exact ⟨⟨fun ch hch => (isDigit_iff ch).mp (hdigits ch hch), by omega, by omega⟩,
            hsigned hbound⟩
  · rintro ⟨⟨hdigits, hpositive, hbound⟩, hseconds⟩
    have hresult := (hloop (decimal word)).mpr
      ⟨fun ch hch => (isDigit_iff ch).mpr (hdigits ch hch), rfl, by omega⟩
    rw [if_neg, hresult]
    · simp only
      rw [if_neg (by omega)]
      apply congrArg some
      apply Int32.toInt_inj.mp
      rw [hsigned (by omega), hseconds]
    · rintro rfl
      exact absurd hpositive (by decide)

/-- The accumulator of `ParsePositiveInt` never leaves the range of `long long`. -/
theorem parseDigits_accumulator {digits : Bytes} {result : Int}
    (h : parseDigits 0 digits = some result) {ch : UInt8} (hch : isDigit ch = true) :
    0 ≤ result * 10 + (ch.toNat - 48) ∧ result * 10 + (ch.toNat - 48) < 2 ^ 63 := by
  obtain ⟨-, rfl, hbound⟩ := parseDigits_zero_eq_some_iff.mp h
  have hdigit := (isDigit_iff ch).mp hch
  omega

/-! ### The names -/

theorem toUpper_eq_iff {ch letter : UInt8} (h : 65 ≤ letter.toNat ∧ letter.toNat ≤ 90) :
    toUpper ch = letter ↔ ch = letter ∨ ch = letter + 32 := by
  simp only [toUpper, Bool.and_eq_true, decide_eq_true_eq, UInt8.le_iff_toNat_le,
    UInt8.reduceToNat]
  split
  · next hlower =>
    simp only [← UInt8.toNat_inj, UInt8.toNat_add, UInt8.toNat_sub, UInt8.reduceToNat]
    omega
  · next hlower =>
    simp only [← UInt8.toNat_inj, UInt8.toNat_add, UInt8.reduceToNat]
    omega

theorem upperCopy_eq_iff {word letters : Bytes}
    (h : ∀ letter ∈ letters, 65 ≤ letter.toNat ∧ letter.toNat ≤ 90) :
    upperCopy word = letters ↔
      List.Forall₂ (fun ch letter => ch = letter ∨ ch = letter + 32) word letters := by
  induction letters generalizing word with
  | nil => rw [upperCopy, List.map_eq_nil_iff, List.forall₂_nil_right_iff]
  | cons letter rest ih =>
      cases word with
      | nil => simp [upperCopy, List.forall₂_nil_left_iff]
      | cons ch word =>
          have hrest := @ih word fun l hl => h l (List.mem_cons_of_mem _ hl)
          rw [upperCopy] at hrest ⊢
          rw [List.map_cons, List.cons.injEq, List.forall₂_cons, hrest,
            toUpper_eq_iff (h letter (List.mem_cons_self ..))]

theorem letters_commandName (type : CommandType) :
    ∀ letter ∈ ascii (commandName type), 65 ≤ letter.toNat ∧ letter.toNat ≤ 90 := by
  cases type <;> decide +kernel

theorem upperCopy_commandName {word : Bytes} {type : CommandType} :
    upperCopy word = ascii (commandName type) ↔ Named word (commandName type) :=
  upperCopy_eq_iff (letters_commandName type)

theorem commandName_injective {type type' : CommandType}
    (h : ascii (commandName type) = ascii (commandName type')) : type = type' := by
  cases type <;> cases type' <;> first | rfl | exact absurd h (by decide)

/-- A line is a command of one type at most. -/
theorem accepts_unique {line : Bytes} {type type' : CommandType} (h : Accepts line type)
    (h' : Accepts line type') : type = type' := by
  obtain ⟨word, args, hwords, hnamed, -⟩ := h
  obtain ⟨word', args', hwords', hnamed', -⟩ := h'
  rw [hwords] at hwords'
  cases hwords'
  exact commandName_injective
    ((upperCopy_commandName.mpr hnamed).symm.trans (upperCopy_commandName.mpr hnamed'))

theorem not_accepts_unknown (line : Bytes) : ¬ Accepts line .unknown := by
  rintro ⟨word, args, -, -, harguments⟩
  exact harguments

/-! ### Parsing -/

/-- The command is what the grammar says about the line. -/
structure Parses (line : Bytes) (cmd : Command) : Prop where
  raw : cmd.raw = line
  fields : Fields line cmd
  accepted : cmd.type ≠ .unknown → Accepts line cmd.type
  complete : cmd.type = .unknown → ∀ type, ¬ Accepts line type

theorem parses_makeUnknow {line : Bytes} (h : ∀ type, ¬ Accepts line type) :
    Parses line (makeUnknow line) where
  raw := rfl
  fields := ⟨rfl, rfl, rfl⟩
  accepted hne := absurd rfl hne
  complete _ := h

theorem parses_of_accepts {line : Bytes} {cmd : Command} (hraw : cmd.raw = line)
    (hfields : Fields line cmd) (h : Accepts line cmd.type) : Parses line cmd where
  raw := hraw
  fields := hfields
  accepted _ := h
  complete hunknown := absurd (hunknown ▸ h) (not_accepts_unknown line)

section Dispatch

variable {line word : Bytes} {args : List Bytes} (hwords : lineWords line = word :: args)
include hwords

theorem accepts_iff {type : CommandType} :
    Accepts line type ↔ Named word (commandName type) ∧ Arguments type args := by
  constructor
  · rintro ⟨word', args', hwords', hnamed, harguments⟩
    rw [hwords] at hwords'
    cases hwords'
    exact ⟨hnamed, harguments⟩
  · rintro ⟨hnamed, harguments⟩
    exact ⟨word, args, hwords, hnamed, harguments⟩

/-- With a known name and wrong arguments the line is no command. -/
theorem parses_of_not_arguments {type : CommandType} (hnamed : Named word (commandName type))
    (h : ¬ Arguments type args) : Parses line (makeUnknow line) := by
  apply parses_makeUnknow
  intro type' haccepts
  obtain ⟨hnamed', harguments⟩ := (accepts_iff hwords).mp haccepts
  have htype : type' = type := commandName_injective
    ((upperCopy_commandName.mpr hnamed').symm.trans (upperCopy_commandName.mpr hnamed))
  exact h (htype ▸ harguments)

theorem parses_bare {type : CommandType}
    (htype : type = .ping ∨ type = .stats ∨ type = .quit ∨ type = .help)
    (hnamed : Named word (commandName type)) :
    Parses line (fillBasicCmd line (word :: args) type 1) := by
  have harguments : Arguments type args ↔ args = [] := by
    rcases htype with rfl | rfl | rfl | rfl <;> rfl
  unfold fillBasicCmd
  split
  · next hlength =>
    apply parses_of_not_arguments hwords hnamed
    rw [harguments]
    rintro rfl
    exact hlength rfl
  · next hlength =>
    rw [if_neg (by omega)]
    have hnil : args = [] := by
      rw [← List.length_eq_zero_iff]
      simpa using hlength
    refine parses_of_accepts rfl ?_ ?_
    · rcases htype with rfl | rfl | rfl | rfl <;> exact ⟨rfl, rfl, rfl⟩
    · exact (accepts_iff hwords).mpr ⟨hnamed, harguments.mpr hnil⟩

theorem parses_keyed {type : CommandType} (htype : type = .get ∨ type = .del ∨ type = .ttl)
    (hnamed : Named word (commandName type)) :
    Parses line (fillBasicCmd line (word :: args) type 2) := by
  have harguments : Arguments type args ↔ args.length = 1 := by
    rcases htype with rfl | rfl | rfl <;> rfl
  unfold fillBasicCmd
  split
  · next hlength =>
    apply parses_of_not_arguments hwords hnamed
    rw [harguments]
    intro hone
    exact hlength (by simp [hone])
  · next hlength =>
    rw [if_pos (Nat.le_refl 2)]
    have hone : args.length = 1 := by simpa using hlength
    obtain ⟨key, rfl⟩ := List.length_eq_one_iff.mp hone
    refine parses_of_accepts rfl ?_ ?_
    · rcases htype with rfl | rfl | rfl <;> exact ⟨⟨word, hwords⟩, rfl, rfl⟩
    · exact (accepts_iff hwords).mpr ⟨hnamed, harguments.mpr hone⟩

theorem parses_set (hnamed : Named word "SET") :
    Parses line
      (if (word :: args).length < 3 then
        makeUnknow line
      else
        let value := restAfterNWords (trim line) 2
        if value = [] then
          makeUnknow line
        else
          { type := .set, key := (word :: args).getD 1 [], value, raw := line }) := by
  split
  · next hshort =>
    apply @parses_of_not_arguments line word args hwords .set hnamed
    intro hargs
    change 2 ≤ args.length at hargs
    rw [List.length_cons] at hshort
    omega
  next hlong =>
    cases args with
    | nil => exact absurd (by simp) hlong
    | cons key args =>
        cases args with
        | nil => exact absurd (by simp) hlong
        | cons third rest =>
            have hvalue := valueText_restAfterNWords hwords
            simp only
            split
            · next hnil =>
              obtain ⟨_, _, _, _, _, _, htrimmed, _⟩ := hvalue
              exact absurd hnil htrimmed.nonempty
            · refine parses_of_accepts rfl ?_ ?_
              · exact ⟨⟨word, third :: rest, hwords⟩, hvalue, rfl⟩
              · exact (accepts_iff hwords).mpr ⟨hnamed, by simp [Arguments]⟩

theorem parses_expire (hnamed : Named word "EXPIRE") :
    Parses line
      (if (word :: args).length ≠ 3 then
        makeUnknow line
      else
        match parsePositiveInt ((word :: args).getD 2 []) with
        | none => makeUnknow line
        | some seconds =>
            { type := .expire, key := (word :: args).getD 1 [], seconds, raw := line }) := by
  split
  · next hlength =>
    apply @parses_of_not_arguments line word args hwords .expire hnamed
    rintro ⟨key, digits, rfl, -⟩
    exact hlength rfl
  next hlength =>
    have htwo : args.length = 2 := by simpa using hlength
    obtain ⟨key, digits, rfl⟩ := List.length_eq_two.mp htwo
    change Parses line (match parsePositiveInt digits with
      | none => makeUnknow line
      | some seconds => { type := .expire, key, seconds, raw := line })
    cases hparsed : parsePositiveInt digits with
    | none =>
        apply @parses_of_not_arguments line word [key, digits] hwords .expire hnamed
        rintro ⟨key', digits', heq, hseconds⟩
        cases heq
        have hsigned : (Int32.ofInt (decimal digits)).toInt = decimal digits := by
          have := hseconds.bounded
          apply Int32.toInt_ofInt_of_le <;> omega
        rw [parsePositiveInt_eq_some_iff.mpr ⟨hseconds, hsigned⟩] at hparsed
        cases hparsed
    | some seconds =>
        obtain ⟨hseconds, hvalue⟩ := parsePositiveInt_eq_some_iff.mp hparsed
        refine parses_of_accepts rfl ?_ ?_
        · exact ⟨⟨word, digits, hwords, hvalue⟩, rfl⟩
        · exact (accepts_iff hwords).mpr ⟨hnamed, key, digits, rfl, hseconds⟩

end Dispatch

/-- `ParseCommand` follows the grammar; its chain of comparisons decides the type. -/
theorem parses_parseCommand (line : Bytes) : Parses line (parseCommand line) := by
  have hsplit : splitWords (trim line) = lineWords line := by
    rw [splitWords_eq, words_trim, isSpace_eq_separator, lineWords]
  have hempty (hnil : lineWords line = []) : Parses line (makeUnknow line) := by
    apply parses_makeUnknow
    rintro type ⟨word, args, hwords, -⟩
    rw [hnil] at hwords
    cases hwords
  unfold parseCommand
  refine iteInduction (fun hnil => hempty ?_) fun _ => ?_
  · rw [← hsplit, hnil]
    rfl
  cases hwords : splitWords (trim line) with
  | nil => exact hempty (hsplit.symm.trans hwords)
  | cons word args =>
      rw [hsplit] at hwords
      have hnamed (type : CommandType) (hop : upperCopy word = ascii (commandName type)) :
          Named word (commandName type) := upperCopy_commandName.mp hop
      refine iteInduction (fun hop => ?_) fun hping => ?_
      · exact parses_bare hwords (.inl rfl) (hnamed .ping hop)
      refine iteInduction (fun hop => ?_) fun hstats => ?_
      · exact parses_bare hwords (.inr (.inl rfl)) (hnamed .stats hop)
      refine iteInduction (fun hop => ?_) fun hquit => ?_
      · exact parses_bare hwords (.inr (.inr (.inl rfl))) (hnamed .quit hop)
      refine iteInduction (fun hop => ?_) fun hhelp => ?_
      · exact parses_bare hwords (.inr (.inr (.inr rfl))) (hnamed .help hop)
      refine iteInduction (fun hop => ?_) fun hget => ?_
      · exact parses_keyed hwords (.inl rfl) (hnamed .get hop)
      refine iteInduction (fun hop => ?_) fun hdel => ?_
      · exact parses_keyed hwords (.inr (.inl rfl)) (hnamed .del hop)
      refine iteInduction (fun hop => ?_) fun httl => ?_
      · exact parses_keyed hwords (.inr (.inr rfl)) (hnamed .ttl hop)
      refine iteInduction (fun hop => ?_) fun hset => ?_
      · exact parses_set hwords (hnamed .set hop)
      refine iteInduction (fun hop => ?_) fun hexpire => ?_
      · exact parses_expire hwords (hnamed .expire hop)
      apply parses_makeUnknow
      intro type haccepts
      have hop := upperCopy_commandName.mpr ((accepts_iff hwords).mp haccepts).1
      cases type with
      | ping => exact hping hop
      | set => exact hset hop
      | get => exact hget hop
      | del => exact hdel hop
      | expire => exact hexpire hop
      | ttl => exact httl hop
      | stats => exact hstats hop
      | quit => exact hquit hop
      | help => exact hhelp hop
      | unknown => exact not_accepts_unknown line haccepts

/-- `ParseCommand` accepts exactly the grammar: the type of the result is the one the
line is a command of, the fields are the parts of the line, and every other line is
`Unknown` with empty fields. The accumulator of its number loop does not overflow. -/
theorem parseCommand_grammar (line : Bytes) :
    (∀ type, type ≠ .unknown → ((parseCommand line).type = type ↔ Accepts line type)) ∧
      Fields line (parseCommand line) ∧ (parseCommand line).raw = line ∧
      ∀ (digits : Bytes) (result : Int) (ch : UInt8), parseDigits 0 digits = some result →
        isDigit ch = true →
          0 ≤ result * 10 + (ch.toNat - 48) ∧ result * 10 + (ch.toNat - 48) < 2 ^ 63 := by
  have hparses := parses_parseCommand line
  refine ⟨fun type hne => ⟨?_, fun haccepts => ?_⟩, hparses.fields, hparses.raw,
    fun digits result ch hresult hch => parseDigits_accumulator hresult hch⟩
  · rintro rfl
    exact hparses.accepted hne
  · apply accepts_unique _ haccepts
    apply hparses.accepted
    intro hunknown
    exact hparses.complete hunknown type haccepts

end CommandParser

end TinyKv
