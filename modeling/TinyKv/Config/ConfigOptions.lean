import TinyKv.Config.CommandLine

/-!
# Agreement of the two passes

The second pass knows which options take a value from the next argument. The first pass knows
this of configuration options only, and looks also at the values of the others.
-/

namespace TinyKv.CommandLine

/-- An argument that the first pass takes for a configuration option. -/
def looksLikeConfig (argument : Bytes) : Bool :=
  argument == ascii "-c" || matchesOption argument (ascii "--config")

/-- The options that take the next argument as their value, `--config` and `-c` apart. -/
def valueOptions : List Bytes :=
  [ascii "--host", ascii "--port", ascii "--poller", ascii "--sub-reactors", ascii "--log-level"]

/-- Before the second configuration option, the value of another option looks like a
configuration option; `found` tells whether there was a first one. -/
def misread : Bool → List Bytes → Bool
  | _, [] => false
  | _, [_] => false
  | found, argument :: value :: rest =>
      if argument = ascii "--config" ∨ argument = ascii "-c" then
        !found && misread true rest
      else if matchesOption argument (ascii "--config") then
        !found && misread true (value :: rest)
      else if argument ∈ valueOptions then
        looksLikeConfig value || misread found rest
      else
        misread found (value :: rest)

/-- What the first pass is to find, given the options the second pass skips: the positions it
takes for configuration options, up to the one it throws at, and its result. -/
def agreed : Option Bytes → List (Nat × Bytes) → List Nat × Except Bytes (Option Bytes)
  | configPath, [] => ([], .ok configPath)
  | none, (position, value) :: rest =>
      let (positions, result) := agreed (some value) rest
      (position :: positions, result)
  | some _, (position, _) :: _ =>
      ([position], .error (ascii "configuration file specified multiple times"))

/-! ### The branches -/

theorem requireNextValue_ok {argv : List Bytes} {idx : Nat} {option value : Bytes} {index : Nat}
    (h : requireNextValue argv idx option = .ok (value, index)) :
    argv[idx + 1]? = some value ∧ value ≠ [] ∧ index = idx + 1 := by
  unfold requireNextValue at h
  split at h
  · cases h
  next next hnext =>
    split at h
    · cases h
    next hvalue =>
      cases h
      exact ⟨hnext, hvalue, rfl⟩

/-- The value of an option is the next argument or the rest of this one. -/
theorem readOptionValue_ok {argv : List Bytes} {i : Nat} {argument option value : Bytes}
    {index : Nat} (h : readOptionValue argv i argument option = .ok (value, index)) :
    (argument = option ∧ argv[i + 1]? = some value ∧ value ≠ [] ∧ index = i + 1) ∨
      (argument = option ++ ascii "=" ++ value ∧ value ≠ [] ∧ index = i) := by
  unfold readOptionValue at h
  split at h
  · next heq =>
    obtain ⟨hnext, hvalue, hindex⟩ := requireNextValue_ok h
    exact .inl ⟨heq, hnext, hvalue, hindex⟩
  · next hne =>
    obtain ⟨inline?, hinline, h⟩ := bind_eq_ok.mp h
    cases inline? with
    | none => cases h
    | some inlineValue =>
        cases h
        rw [parseInlineValue, if_neg hne] at hinline
        split at hinline
        next hstart =>
          obtain ⟨rest, rfl⟩ := List.isPrefixOf_iff_prefix.mp hstart
          rw [List.drop_left] at hinline
          simp only at hinline
          split at hinline
          · cases hinline
          next hvalue =>
            cases hinline
            exact .inr ⟨rfl, hvalue, rfl⟩
        · cases hinline

/-- An option in its inline spelling is no option of its own. -/
theorem not_mem_valueOptions (option value : Bytes) :
    option ++ ascii "=" ++ value ∉ valueOptions := by
  intro hmem
  have hplain : ∀ name ∈ valueOptions, (61 : UInt8) ∉ name := by decide
  apply hplain _ hmem
  simp [ascii]

/-- What an iteration of the second pass makes of an argument. -/
inductive Read (argv : List Bytes) (i : Nat) (argument : Bytes) : Nat → List (Nat × Bytes) → Prop
  | separateConfig {value : Bytes} (hname : argument = ascii "--config" ∨ argument = ascii "-c")
      (hnext : argv[i + 1]? = some value)
      (hread : requireNextValue argv i argument = .ok (value, i + 1)) :
      Read argv i argument (i + 1) [(i, value)]
  | inlineConfig {value : Bytes} (hname : ¬ (argument = ascii "--config" ∨ argument = ascii "-c"))
      (hconfig : matchesOption argument (ascii "--config") = true)
      (hread : readOptionValue argv i argument (ascii "--config") = .ok (value, i)) :
      Read argv i argument i [(i, value)]
  | separate {value : Bytes} (hother : looksLikeConfig argument = false)
      (hname : argument ∈ valueOptions) (hnext : argv[i + 1]? = some value) :
      Read argv i argument (i + 1) []
  | single (hother : looksLikeConfig argument = false) (hname : argument ∉ valueOptions) :
      Read argv i argument i []

theorem read_overrideOption {argv : List Bytes} {i : Nat} {argument option : Bytes}
    {set : Bytes → Except Bytes AppConfig} {applied : Applied}
    (hother : looksLikeConfig argument = false) (hoption : option ∈ valueOptions)
    (h : overrideOption argv i argument option set = .ok applied) :
    Read argv i argument applied.index applied.skipped := by
  obtain ⟨⟨value, index⟩, hread, h⟩ := bind_eq_ok.mp h
  obtain ⟨config, -, h⟩ := bind_eq_ok.mp h
  cases h
  obtain ⟨heq, hnext, -, rfl⟩ | ⟨rfl, -, rfl⟩ := readOptionValue_ok hread
  · exact .separate hother (heq ▸ hoption) hnext
  · exact .single hother (not_mem_valueOptions option value)

/-- One iteration of the second pass. -/
theorem read_applyBody {hardwareConcurrency : Nat} {argv : List Bytes} {i : Nat}
    {argument : Bytes} {config : AppConfig} {applied : Applied}
    (h : applyBody hardwareConcurrency argv i argument config = .ok applied) :
    Read argv i argument applied.index applied.skipped := by
  unfold applyBody at h
  split at h
  · next hname =>
    obtain ⟨⟨value, index⟩, hread, h⟩ := bind_eq_ok.mp h
    cases h
    obtain ⟨hnext, -, rfl⟩ := requireNextValue_ok hread
    exact .separateConfig hname hnext hread
  next hname =>
  split at h
  · next hconfig =>
    obtain ⟨⟨value, index⟩, hread, h⟩ := bind_eq_ok.mp h
    cases h
    obtain ⟨heq, -⟩ | ⟨-, -, rfl⟩ := readOptionValue_ok hread
    · exact absurd (.inl heq) hname
    · exact .inlineConfig hname hconfig hread
  next hconfig =>
  have hother : looksLikeConfig argument = false := by
    simp only [looksLikeConfig, Bool.or_eq_false_iff, beq_eq_false_iff_ne]
    exact ⟨fun heq => hname (.inr heq), Bool.eq_false_iff.mpr hconfig⟩
  split at h
  · exact read_overrideOption hother (by decide) h
  split at h
  · exact read_overrideOption hother (by decide) h
  split at h
  · exact read_overrideOption hother (by decide) h
  split at h
  · exact read_overrideOption hother (by decide) h
  split at h
  · exact read_overrideOption hother (by decide) h
  split at h
  · next hhelp =>
    cases h
    refine .single hother ?_
    obtain rfl | rfl := hhelp
    · decide
    · decide
  · cases h

/-! ### The first pass, one argument at a time -/

/-- The index never goes back. -/
theorem le_of_findBody {argv : List Bytes} {i index : Nat} {argument : Bytes}
    {configPath path : Option Bytes}
    (h : (findBody argv i argument configPath).2 = .ok (index, path)) : i ≤ index := by
  unfold findBody at h
  simp only at h
  split at h
  · obtain ⟨⟨value, next⟩, hread, h⟩ := bind_eq_ok.mp h
    obtain ⟨-, -, rfl⟩ := requireNextValue_ok hread
    split at h
    · cases h
    · cases h
      exact Nat.le_succ _
  split at h
  · obtain ⟨⟨value, next⟩, hread, h⟩ := bind_eq_ok.mp h
    split at h
    · cases h
    · cases h
      obtain ⟨-, -, -, rfl⟩ | ⟨-, -, rfl⟩ := readOptionValue_ok hread
      · exact Nat.le_succ _
      · exact Nat.le_refl _
  · cases h
    exact Nat.le_refl _

/-- More fuel than the arguments need changes nothing. -/
theorem findLoop_fuel {argv : List Bytes} {fuel fuel' i : Nat} (h : argv.length ≤ i + fuel)
    (h' : argv.length ≤ i + fuel') (configPath : Option Bytes) :
    findLoop argv fuel i configPath = findLoop argv fuel' i configPath := by
  induction fuel generalizing fuel' i configPath with
  | zero =>
      have hnone : argv[i]? = none := List.getElem?_eq_none h
      cases fuel' with
      | zero => rfl
      | succ fuel' => simp only [findLoop, hnone]
  | succ fuel ih =>
      cases fuel' with
      | zero =>
          have hnone : argv[i]? = none := List.getElem?_eq_none h'
          simp only [findLoop, hnone]
      | succ fuel' =>
          simp only [findLoop]
          cases argv[i]? with
          | none => rfl
          | some argument =>
              cases hbody : findBody argv i argument configPath with
              | mk positions result =>
              cases result with
              | error e => simp only [hbody]
              | ok next =>
                  have hle : i ≤ next.1 := le_of_findBody (congrArg Prod.snd hbody)
                  have hsame := @ih fuel' (next.1 + 1) (by omega) (by omega) next.2
                  simp only [hbody, hsame]

/-- The first pass from an index on. -/
def findFrom (argv : List Bytes) (i : Nat) (configPath : Option Bytes) :
    List Nat × Except Bytes (Option Bytes) :=
  findLoop argv argv.length i configPath

theorem findFrom_end {argv : List Bytes} {i : Nat} (h : argv[i]? = none)
    (configPath : Option Bytes) : findFrom argv i configPath = ([], .ok configPath) := by
  rw [findFrom, findLoop_fuel (Nat.le_add_left ..) (Nat.le_add_left argv.length i |>.trans
    (Nat.le_succ _) : argv.length ≤ i + (argv.length + 1)), findLoop, h]

theorem findFrom_step {argv : List Bytes} {i : Nat} {argument : Bytes}
    (h : argv[i]? = some argument) (configPath : Option Bytes) :
    findFrom argv i configPath =
      match findBody argv i argument configPath with
      | (positions, .error e) => (positions, .error e)
      | (positions, .ok (index, path)) =>
          (positions ++ (findFrom argv (index + 1) path).1,
            (findFrom argv (index + 1) path).2) := by
  rw [findFrom, findLoop_fuel (Nat.le_add_left ..) (Nat.le_add_left argv.length i |>.trans
    (Nat.le_succ _) : argv.length ≤ i + (argv.length + 1)), findLoop, h]
  rfl

/-- An argument the first pass looks at in vain. -/
theorem findFrom_other {argv : List Bytes} {i : Nat} {argument : Bytes}
    (hget : argv[i]? = some argument) (h : looksLikeConfig argument = false)
    (configPath : Option Bytes) :
    findFrom argv i configPath = findFrom argv (i + 1) configPath := by
  simp only [looksLikeConfig, matchesOption, Bool.or_eq_false_iff, beq_eq_false_iff_ne] at h
  obtain ⟨hshort, hlong, hinline⟩ := h
  rw [findFrom_step hget]
  simp [findBody, matchesOption, hshort, hlong, hinline]

/-- An argument the first pass takes for a configuration option, whether or not it finds a
value for it. -/
theorem findFrom_config {argv : List Bytes} {i : Nat} {argument : Bytes}
    (hget : argv[i]? = some argument) (h : looksLikeConfig argument = true)
    (configPath : Option Bytes) : i ∈ (findFrom argv i configPath).1 := by
  have hposition : (findBody argv i argument configPath).1 = [i] := by
    simp only [findBody]
    split
    · rfl
    next hname =>
      have hconfig : matchesOption argument (ascii "--config") = true := by
        simp only [looksLikeConfig, Bool.or_eq_true, beq_iff_eq] at h
        exact h.resolve_left fun heq => hname (.inr heq)
      rw [if_pos hconfig]
  rw [findFrom_step hget]
  generalize findBody argv i argument configPath = body at hposition
  obtain ⟨positions, result⟩ := body
  cases hposition
  cases result with
  | error e => exact List.mem_singleton_self i
  | ok next => exact List.mem_append_left _ (List.mem_singleton_self i)

/-- A configuration option with a value, before and after another one. -/
theorem findFrom_read {argv : List Bytes} {i index : Nat} {argument value : Bytes}
    (hget : argv[i]? = some argument)
    (hread : Read argv i argument index [(i, value)]) :
    (findFrom argv i none =
      (i :: (findFrom argv (index + 1) (some value)).1,
        (findFrom argv (index + 1) (some value)).2)) ∧
    ∀ path, findFrom argv i (some path) =
      ([i], .error (ascii "configuration file specified multiple times")) := by
  cases hread with
  | separateConfig hname hnext hvalue =>
      constructor
      · rw [findFrom_step hget]
        simp only [findBody, if_pos hname, hvalue]
        rfl
      · intro path
        rw [findFrom_step hget]
        simp only [findBody, if_pos hname, hvalue]
        rfl
  | inlineConfig hname hconfig hvalue =>
      constructor
      · rw [findFrom_step hget]
        simp only [findBody, if_neg hname, if_pos hconfig, hvalue]
        rfl
      · intro path
        rw [findFrom_step hget]
        simp only [findBody, if_neg hname, if_pos hconfig, hvalue]
        rfl

/-! ### Agreement -/

theorem mem_of_agreed {configPath : Option Bytes} {skipped : List (Nat × Bytes)} {position : Nat}
    (h : position ∈ (agreed configPath skipped).1) : position ∈ skipped.map Prod.fst := by
  induction skipped generalizing configPath with
  | nil => cases h
  | cons option rest ih =>
      cases configPath with
      | none =>
          obtain rfl | hmem := List.mem_cons.mp h
          · exact List.mem_cons_self ..
          · exact List.mem_cons_of_mem _ (ih hmem)
      | some path =>
          obtain rfl := List.mem_singleton.mp h
          exact List.mem_cons_self ..

theorem misread_inlineConfig {found : Bool} {argument : Bytes} {rest : List Bytes}
    (hname : ¬ (argument = ascii "--config" ∨ argument = ascii "-c"))
    (hconfig : matchesOption argument (ascii "--config") = true) :
    misread found (argument :: rest) = (!found && misread true rest) := by
  cases rest with
  | nil => simp [misread]
  | cons value rest => rw [misread, if_neg hname, if_pos hconfig]

theorem not_config_of_other {argument : Bytes} (h : looksLikeConfig argument = false) :
    ¬ (argument = ascii "--config" ∨ argument = ascii "-c") ∧
      matchesOption argument (ascii "--config") = false := by
  simp only [looksLikeConfig, Bool.or_eq_false_iff, beq_eq_false_iff_ne] at h
  obtain ⟨hshort, hconfig⟩ := h
  refine ⟨?_, hconfig⟩
  rintro (rfl | rfl)
  · revert hconfig
    decide
  · exact hshort rfl

theorem misread_separate {found : Bool} {argument value : Bytes} {rest : List Bytes}
    (hother : looksLikeConfig argument = false) (hname : argument ∈ valueOptions) :
    misread found (argument :: value :: rest) =
      (looksLikeConfig value || misread found rest) := by
  obtain ⟨hseparate, hinline⟩ := not_config_of_other hother
  rw [misread, if_neg hseparate, hinline, if_neg Bool.false_ne_true, if_pos hname]

theorem misread_single {found : Bool} {argument : Bytes} {rest : List Bytes}
    (hother : looksLikeConfig argument = false) (hname : argument ∉ valueOptions) :
    misread found (argument :: rest) = misread found rest := by
  obtain ⟨hseparate, hinline⟩ := not_config_of_other hother
  cases rest with
  | nil => simp [misread]
  | cons value rest =>
      rw [misread, if_neg hseparate, hinline, if_neg Bool.false_ne_true, if_neg hname]

theorem drop_of_get {argv : List Bytes} {i : Nat} {argument : Bytes}
    (h : argv[i]? = some argument) : argv.drop i = argument :: argv.drop (i + 1) := by
  obtain ⟨hlt, rfl⟩ := List.getElem?_eq_some_iff.mp h
  exact List.drop_eq_getElem_cons hlt

theorem agrees_of_config {argv : List Bytes} {i index : Nat} {argument value : Bytes}
    {more : List (Nat × Bytes)} (hget : argv[i]? = some argument)
    (hread : Read argv i argument index [(i, value)])
    (hmisread : ∀ found, misread found (argv.drop i) =
      (!found && misread true (argv.drop (index + 1))))
    (hrest : ∀ path, findFrom argv (index + 1) path = agreed path more ↔
      misread path.isSome (argv.drop (index + 1)) = false) (configPath : Option Bytes) :
    findFrom argv i configPath = agreed configPath ((i, value) :: more) ↔
      misread configPath.isSome (argv.drop i) = false := by
  obtain ⟨hfirst, hsecond⟩ := findFrom_read hget hread
  rw [hmisread]
  cases configPath with
  | none =>
      rw [hfirst, agreed]
      simp only [Prod.mk.injEq, List.cons.injEq, true_and, Option.isSome_none, Bool.not_false,
        Bool.true_and]
      rw [← Prod.ext_iff]
      exact hrest (some value)
  | some path => exact iff_of_true (hsecond path) rfl

/-- One argument, when the rest is settled. -/
theorem agrees_of_read {argv : List Bytes} {i index : Nat} {argument : Bytes}
    {option more : List (Nat × Bytes)} (hget : argv[i]? = some argument)
    (hread : Read argv i argument index option)
    (hmore : ∀ position ∈ more.map Prod.fst, index + 1 ≤ position)
    (hrest : ∀ path, findFrom argv (index + 1) path = agreed path more ↔
      misread path.isSome (argv.drop (index + 1)) = false) (configPath : Option Bytes) :
    findFrom argv i configPath = agreed configPath (option ++ more) ↔
      misread configPath.isSome (argv.drop i) = false := by
  cases hread with
  | separateConfig hname hnext hvalue =>
      apply agrees_of_config hget (.separateConfig hname hnext hvalue) _ hrest
      intro found
      rw [drop_of_get hget, drop_of_get hnext, misread, if_pos hname]
  | inlineConfig hname hconfig hvalue =>
      apply agrees_of_config hget (.inlineConfig hname hconfig hvalue) _ hrest
      intro found
      rw [drop_of_get hget]
      exact misread_inlineConfig hname hconfig
  | @separate value hother hname hnext =>
      rw [findFrom_other hget hother, drop_of_get hget, drop_of_get hnext,
        misread_separate hother hname]
      cases hvalue : looksLikeConfig value with
      | false =>
          rw [findFrom_other hnext hvalue, Bool.false_or]
          exact hrest configPath
      | true =>
          -- The first pass stops at a position that the second has passed over.
          apply iff_of_false
          · intro hagrees
            have hmem := findFrom_config hnext hvalue configPath
            rw [hagrees] at hmem
            have hle := hmore (i + 1) (mem_of_agreed hmem)
            omega
          · simp
  | single hother hname =>
      rw [findFrom_other hget hother, drop_of_get hget, misread_single hother hname]
      exact hrest configPath

theorem agrees_of_end {argv : List Bytes} {i : Nat} (h : argv[i]? = none)
    (configPath : Option Bytes) :
    findFrom argv i configPath = agreed configPath [] ↔
      misread configPath.isSome (argv.drop i) = false := by
  rw [findFrom_end h, List.drop_eq_nil_of_le (List.getElem?_eq_none_iff.mp h)]
  exact iff_of_true rfl rfl

theorem Read.le {argv : List Bytes} {i index : Nat} {argument : Bytes}
    {option : List (Nat × Bytes)} (h : Read argv i argument index option) : i ≤ index := by
  cases h with
  | separateConfig hname hnext hvalue => exact Nat.le_succ i
  | inlineConfig hname hconfig hvalue => exact Nat.le_refl i
  | separate hother hname hnext => exact Nat.le_succ i
  | single hother hname => exact Nat.le_refl i

theorem Read.position_le {argv : List Bytes} {i index : Nat} {argument : Bytes}
    {option : List (Nat × Bytes)} (h : Read argv i argument index option) :
    ∀ position ∈ option.map Prod.fst, i ≤ position := by
  cases h with
  | separateConfig hname hnext hvalue => simp
  | inlineConfig hname hconfig hvalue => simp
  | separate hother hname hnext => exact nofun
  | single hother hname => exact nofun

/-- From any index on, the first pass finds what it is to find exactly when it misreads no
value; by induction on the iterations of the second pass. -/
theorem findFrom_agrees_iff {hardwareConcurrency : Nat} {argv : List Bytes} {fuel i : Nat}
    {config config' : AppConfig} {skipped : List (Nat × Bytes)} (hfuel : argv.length ≤ i + fuel)
    (h : applyLoop hardwareConcurrency argv fuel i config = .ok (skipped, config')) :
    (∀ position ∈ skipped.map Prod.fst, i ≤ position) ∧
      ∀ configPath, findFrom argv i configPath = agreed configPath skipped ↔
        misread configPath.isSome (argv.drop i) = false := by
  induction fuel generalizing i config skipped with
  | zero =>
      cases h
      exact ⟨nofun, agrees_of_end (List.getElem?_eq_none hfuel)⟩
  | succ fuel ih =>
      rw [applyLoop] at h
      cases hget : argv[i]? with
      | none =>
          rw [hget] at h
          cases h
          exact ⟨nofun, agrees_of_end hget⟩
      | some argument =>
          rw [hget] at h
          obtain ⟨⟨index, option, config₁⟩, hbody, h⟩ := bind_eq_ok.mp h
          obtain ⟨⟨more, config₂⟩, hloop, h⟩ := bind_eq_ok.mp h
          cases h
          have hread : Read argv i argument index option := read_applyBody hbody
          change applyLoop hardwareConcurrency argv fuel (index + 1) config₁ = _ at hloop
          have hle := hread.le
          obtain ⟨hmore, hrest⟩ := ih (by omega) hloop
          constructor
          · intro position hmem
            rw [List.map_append, List.mem_append] at hmem
            obtain hoption | hlater := hmem
            · exact hread.position_le position hoption
            · have := hmore position hlater
              omega
          · exact agrees_of_read hget hread hmore hrest

/-- On the arguments that the second pass accepts, the first pass takes the same positions for
configuration options and returns the value of the only one, up to the second one, at which it
throws, exactly when no value of another option before that looks like a configuration
option. -/
theorem findConfigPath_agrees_iff (hardwareConcurrency : Nat) (argv : List Bytes)
    (config config' : AppConfig) (skipped : List (Nat × Bytes))
    (h : applyCommandLineOverrides hardwareConcurrency argv config = .ok (skipped, config')) :
    (findConfigPath argv =
      match skipped with
      | [] => ([], .ok none)
      | [(position, value)] => ([position], .ok (some value))
      | (first, _) :: (second, _) :: _ =>
          ([first, second], .error (ascii "configuration file specified multiple times"))) ↔
      misread false (argv.drop 1) = false := by
  have hagreed : (match skipped with
      | [] => ([], .ok none)
      | [(position, value)] => ([position], .ok (some value))
      | (first, _) :: (second, _) :: _ =>
          ([first, second], .error (ascii "configuration file specified multiple times")) :
        List Nat × Except Bytes (Option Bytes)) = agreed none skipped := by
    match skipped with
    | [] => rfl
    | [(position, value)] => rfl
    | (first, _) :: (second, _) :: _ => rfl
  rw [hagreed]
  exact (findFrom_agrees_iff (Nat.le_add_left ..) h).2 none

/-- An inline configuration option between two others. -/
theorem findConfigPath_agrees_iff_inline :
    let argv := [ascii "tinykv_server", ascii "--host=a", ascii "--config=b", ascii "--port=1"]
    (findConfigPath argv = ([2], .ok (some (ascii "b")))) ↔
      misread false (argv.drop 1) = false :=
  findConfigPath_agrees_iff 8 _ {} { host := ascii "a", port := 1 } [(2, ascii "b")] rfl

/-- A host name that looks like a configuration option. -/
theorem findConfigPath_disagrees :
    let argv := [ascii "tinykv_server", ascii "--host", ascii "--config=b"]
    applyCommandLineOverrides 8 argv {} = .ok ([], { host := ascii "--config=b" }) ∧
      findConfigPath argv = ([2], .ok (some (ascii "b"))) ∧
      findConfigPath argv ≠ ([], .ok none) :=
  ⟨rfl, rfl, nofun⟩

end TinyKv.CommandLine
