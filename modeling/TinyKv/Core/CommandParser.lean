import TinyKv.Core.Bytes
import Mathlib.Data.List.DropRight

/-!
# The command parser

`ParseCommand` reads one line of text into a `Command`. The character tests are
those of the default C locale; a line that is no command is `Unknown`.
-/

namespace TinyKv

/-- `CommandType`. -/
inductive CommandType where
  | ping
  | set
  | get
  | del
  | expire
  | ttl
  | stats
  | quit
  | help
  | unknown
deriving DecidableEq, Repr

/-- `Command`. -/
structure Command where
  type : CommandType := .unknown
  key : Bytes := []
  value : Bytes := []
  seconds : Int32 := 0
  raw : Bytes := []
deriving DecidableEq

namespace CommandParser

/-- `IsSpace`: the space, and the five control characters from TAB to CR. -/
def isSpace (ch : UInt8) : Bool := ch == 32 || (9 ≤ ch && ch ≤ 13)

/-- `IsDigit`. -/
def isDigit (ch : UInt8) : Bool := 48 ≤ ch && ch ≤ 57

/-- `std::toupper` of one character. -/
def toUpper (ch : UInt8) : UInt8 := if 97 ≤ ch && ch ≤ 122 then ch - 32 else ch

/-- `Trim`. -/
def trim (text : Bytes) : Bytes := (text.dropWhile isSpace).rdropWhile isSpace

/-- `UpperCopy`. -/
def upperCopy (text : Bytes) : Bytes := text.map toUpper

/-- `input >> word`: the next word and the input after it, unless only white space is
left. -/
def extractWord (input : Bytes) : Option (Bytes × Bytes) :=
  let input := input.dropWhile isSpace
  if input = [] then
    none
  else
    some (input.takeWhile (!isSpace ·), input.dropWhile (!isSpace ·))

/-- The loop of `SplitWords`; `fuel` bounds the number of words. -/
def splitWordsLoop : Nat → Bytes → List Bytes
  | 0, _ => []
  | fuel + 1, input =>
      match extractWord input with
      | none => []
      | some (word, input) => word :: splitWordsLoop fuel input

/-- `SplitWords`. A word takes at least one character. -/
def splitWords (text : Bytes) : List Bytes := splitWordsLoop text.length text

/-- The text from `pos` on after the loop of `RestAfterNWords`; `none` is its early
return. -/
def skipWords : Nat → Bytes → Option Bytes
  | 0, text => some text
  | count + 1, text =>
      let text := text.dropWhile isSpace
      if text = [] then
        none
      else
        skipWords count (text.dropWhile (!isSpace ·))

/-- `RestAfterNWords`. -/
def restAfterNWords (text : Bytes) (wordCount : Nat) : Bytes :=
  match skipWords wordCount text with
  | none => []
  | some text =>
      let text := text.dropWhile isSpace
      if text = [] then [] else trim text

/-- The loop of `ParsePositiveInt`; `none` is its early return. -/
def parseDigits : Int → Bytes → Option Int
  | result, [] => some result
  | result, ch :: text =>
      if isDigit ch then
        let result := result * 10 + (ch.toNat - 48)
        if result > 2147483647 then none else parseDigits result text
      else
        none

/-- `ParsePositiveInt`. -/
def parsePositiveInt (text : Bytes) : Option Int32 :=
  if text = [] then
    none
  else
    match parseDigits 0 text with
    | none => none
    | some result => if result ≤ 0 then none else some (Int32.ofInt result)

/-- `MakeUnknow`. -/
def makeUnknow (raw : Bytes) : Command := { type := .unknown, raw }

/-- A command without further checks on its arguments: `FillBasicCmd` on the words of
the line, or `MakeUnknow`. -/
def fillBasicCmd (line : Bytes) (parts : List Bytes) (type : CommandType)
    (expectedArgCount : Nat) : Command :=
  if parts.length ≠ expectedArgCount then
    makeUnknow line
  else if expectedArgCount ≥ 2 then
    { type, key := parts.getD 1 [], raw := line }
  else
    { type, raw := line }

/-- `ParseCommand`. -/
def parseCommand (line : Bytes) : Command :=
  let text := trim line
  if text = [] then
    makeUnknow line
  else
    match splitWords text with
    | [] => makeUnknow line
    | word :: args =>
        let parts := word :: args
        let op := upperCopy word
        if op = ascii "PING" then
          fillBasicCmd line parts .ping 1
        else if op = ascii "STATS" then
          fillBasicCmd line parts .stats 1
        else if op = ascii "QUIT" then
          fillBasicCmd line parts .quit 1
        else if op = ascii "HELP" then
          fillBasicCmd line parts .help 1
        else if op = ascii "GET" then
          fillBasicCmd line parts .get 2
        else if op = ascii "DEL" then
          fillBasicCmd line parts .del 2
        else if op = ascii "TTL" then
          fillBasicCmd line parts .ttl 2
        else if op = ascii "SET" then
          if parts.length < 3 then
            makeUnknow line
          else
            let value := restAfterNWords text 2
            if value = [] then
              makeUnknow line
            else
              { type := .set, key := parts.getD 1 [], value, raw := line }
        else if op = ascii "EXPIRE" then
          if parts.length ≠ 3 then
            makeUnknow line
          else
            match parsePositiveInt (parts.getD 2 []) with
            | none => makeUnknow line
            | some seconds => { type := .expire, key := parts.getD 1 [], seconds, raw := line }
        else
          makeUnknow line

example : parseCommand (ascii " set k  a  b ") =
    { type := .set, key := ascii "k", value := ascii "a  b", raw := ascii " set k  a  b " } := by
  decide

/-! ### The length of a value -/

/-- What stands after a maximal run cannot start with a character of the run. -/
theorem length_dropWhile_dropWhile {p q : UInt8 → Bool} (hpq : ∀ ch, p ch = false → q ch = true)
    {text : Bytes} (h : text.dropWhile p ≠ []) :
    ((text.dropWhile p).dropWhile q).length + 1 ≤ (text.dropWhile p).length := by
  have hhead := List.head_dropWhile_not p h
  obtain ⟨ch, rest, hcons⟩ := List.exists_cons_of_ne_nil h
  simp only [hcons, List.head_cons] at hhead
  rw [hcons, List.dropWhile_cons_of_pos (hpq ch hhead), List.length_cons]
  have := List.length_dropWhile_le q rest
  omega

theorem dropWhile_ne_nil {p : UInt8 → Bool} {text : Bytes} (h : text.dropWhile p ≠ []) :
    text ≠ [] := by
  rintro rfl
  exact h rfl

theorem length_trim_le (text : Bytes) : (trim text).length ≤ text.length :=
  (List.rdropWhile_prefix isSpace _).length_le.trans (List.length_dropWhile_le isSpace text)

/-- Two words and two separators stand before a non-empty rest; the first word is the
one `SplitWords` finds. -/
theorem length_restAfterNWords {text word : Bytes} {args : List Bytes}
    (hwords : splitWords text = word :: args) (hrest : restAfterNWords text 2 ≠ []) :
    (restAfterNWords text 2).length + word.length + 3 ≤ text.length := by
  have hspace : ∀ ch, (!isSpace ch) = false → isSpace ch = true := by simp
  have hword : ∀ ch, isSpace ch = false → (!isSpace ch) = true := by simp
  -- the positions the loop passes: the first word, its end, the second word, its end
  let first := text.dropWhile isSpace
  let afterFirst := first.dropWhile (!isSpace ·)
  let second := afterFirst.dropWhile isSpace
  let afterSecond := second.dropWhile (!isSpace ·)
  let rest := afterSecond.dropWhile isSpace
  have hfirst : first = [] ∨ word = first.takeWhile (!isSpace ·) := by
    by_cases hnil : first = []
    · exact .inl hnil
    · right
      have hfuel : text.length ≠ 0 := by
        intro hzero
        exact dropWhile_ne_nil hnil (List.length_eq_zero_iff.mp hzero)
      obtain ⟨fuel, hfuel⟩ := Nat.exists_eq_succ_of_ne_zero hfuel
      rw [splitWords, hfuel, splitWordsLoop, extractWord, if_neg hnil] at hwords
      exact (List.cons.inj hwords).1.symm
  simp only [restAfterNWords, skipWords] at hrest ⊢
  by_cases hnil : text.dropWhile isSpace = []
  · simp [hnil] at hrest
  by_cases hnil' : second = []
  · simp only [if_neg hnil] at hrest
    rw [if_pos hnil'] at hrest
    exact absurd rfl hrest
  simp only [if_neg hnil] at hrest ⊢
  rw [if_neg hnil'] at hrest ⊢
  change (if rest = [] then [] else trim rest) ≠ [] at hrest
  change (if rest = [] then [] else trim rest).length + word.length + 3 ≤ text.length
  by_cases hnil'' : rest = []
  · rw [if_pos hnil''] at hrest
    exact absurd rfl hrest
  rw [if_neg hnil'']
  have htrim := length_trim_le rest
  have hgap : rest.length + 1 ≤ afterSecond.length :=
    length_dropWhile_dropWhile hspace (dropWhile_ne_nil hnil'')
  have hsecond : afterSecond.length + 1 ≤ second.length :=
    length_dropWhile_dropWhile hword hnil'
  have hgap' : second.length + 1 ≤ afterFirst.length :=
    length_dropWhile_dropWhile hspace (dropWhile_ne_nil hnil')
  have hsplit : word.length + afterFirst.length = first.length := by
    rw [hfirst.resolve_left hnil, ← List.length_append, List.takeWhile_append_dropWhile]
  have htext : first.length ≤ text.length := List.length_dropWhile_le isSpace text
  omega

theorem fillBasicCmd_value (line : Bytes) (parts : List Bytes) (type : CommandType) (n : Nat) :
    (fillBasicCmd line parts type n).value = [] := by
  simp only [fillBasicCmd]
  split
  · rfl
  split <;> rfl

/-- The command has no value, or one that is at least `SET`, a key and two separators
shorter than its line. -/
def ShortValue (line : Bytes) (cmd : Command) : Prop :=
  cmd.value = [] ∨ cmd.value.length + 6 ≤ line.length

theorem ShortValue.unknown (line : Bytes) : ShortValue line (makeUnknow line) := .inl rfl

theorem ShortValue.basic (line : Bytes) (parts : List Bytes) (type : CommandType) (n : Nat) :
    ShortValue line (fillBasicCmd line parts type n) := .inl (fillBasicCmd_value ..)

theorem shortValue_parseCommand (line : Bytes) : ShortValue line (parseCommand line) := by
  unfold parseCommand
  refine iteInduction (fun _ => .unknown line) fun _ => ?_
  cases hwords : splitWords (trim line) with
  | nil => exact .unknown line
  | cons word args =>
      -- the seven commands without further checks
      iterate 7 refine iteInduction (fun _ => .basic line _ _ _) fun _ => ?_
      refine iteInduction (fun hset => ?_) fun _ => ?_
      · refine iteInduction (fun _ => .unknown line) fun _ => ?_
        refine iteInduction (fun _ => .unknown line) fun hvalue => ?_
        have hlen : word.length = 3 := by
          rw [← List.length_map toUpper, ← upperCopy, hset]
          rfl
        have hrest := length_restAfterNWords hwords hvalue
        have htrim := length_trim_le line
        right
        change (restAfterNWords (trim line) 2).length + 6 ≤ line.length
        omega
      · refine iteInduction (fun _ => ?_) fun _ => .unknown line
        refine iteInduction (fun _ => .unknown line) fun _ => ?_
        cases parsePositiveInt ((word :: args).getD 2 []) with
        | none => exact .unknown line
        | some seconds => exact .inl rfl

end CommandParser

end TinyKv
