import TinyKv.Config.CommandOptions

/-!
# What the command line overrides

Each option sets the field that it names, and the last occurrence of an option counts. Neither
the spelling of an option nor the order of options with different fields matters.
-/

namespace TinyKv.CommandLine

/-! ### The result -/

/-- A field that the last occurrence of an option gives its parsed value, and that keeps its
value without one. -/
def Sets {α : Type} (last : Option Bytes) (parse : Bytes → Except Bytes α) (base result : α) :
    Prop :=
  match last with
  | none => result = base
  | some value => parse value = .ok result

/-- A configuration over which the options of the command line have been put. -/
structure Overridden (hardwareConcurrency : Nat) (base : AppConfig)
    (occurrences : List Occurrence) (config : AppConfig) : Prop where
  host : Sets (lastValue .host occurrences) .ok base.host config.host
  port : Sets (lastValue .port occurrences) parsePort base.port config.port
  pollerBackend : Sets (lastValue .poller occurrences) parsePoller
    base.reactor.pollerBackend config.reactor.pollerBackend
  subReactorCount : Sets (lastValue .subReactors occurrences)
    (parseSubReactors hardwareConcurrency) base.reactor.subReactorCount
    config.reactor.subReactorCount
  logLevel : Sets (lastValue .logLevel occurrences) parseLevel base.logLevel config.logLevel
  network : config.network = base.network
  shutdown : config.shutdown = base.shutdown
  sweepInterval : config.sweepInterval = base.sweepInterval

/-- The long option that sets a field of the configuration, of an occurrence. -/
def Occurrence.field : Occurrence → Option LongOption
  | .separate .config _ => none
  | .inline .config _ => none
  | .separate option _ => some option
  | .inline option _ => some option
  | _ => none

/-- Two options that set different fields. -/
def Occurrence.Apart (p q : Occurrence) : Prop :=
  ∀ option, p.field = some option → q.field ≠ some option

/-- The same options in another spelling or in another order. -/
inductive Rewritten : List Occurrence → List Occurrence → Prop
  | inline (before after : List Occurrence) (option : LongOption) (value : Value) :
      Rewritten (before ++ .separate option value :: after)
        (before ++ .inline option value :: after)
  | exchange (before after : List Occurrence) {p q : Occurrence} (h : p.Apart q) :
      Rewritten (before ++ p :: q :: after) (before ++ q :: p :: after)

/-! ### What is written last -/

/-- A field that each single option sets is set by the last occurrence of its option. -/
theorem sets_writeAll {hardwareConcurrency : Nat} {α : Type} (get : AppConfig → α)
    {parse : Bytes → Except Bytes α} {option : LongOption}
    (hset : ∀ (o : Occurrence) (setting : Setting) (config : AppConfig),
      o.setting hardwareConcurrency = .ok setting →
        Sets (o.valueOf option) parse (get config) (get (setting.write config)))
    {occurrences : List Occurrence} {base config : AppConfig}
    (h : writeAll hardwareConcurrency occurrences base = .ok config) :
    Sets (lastValue option occurrences) parse (get base) (get config) := by
  induction occurrences generalizing base with
  | nil =>
      cases h
      exact rfl
  | cons o rest ih =>
      obtain ⟨setting, hsetting, h⟩ := bind_eq_ok.mp h
      have hrest := ih h
      have hfirst := hset o setting base hsetting
      rw [lastValue]
      cases hlast : lastValue option rest with
      | some value =>
          rw [hlast] at hrest
          exact hrest
      | none =>
          rw [hlast] at hrest
          rw [Option.none_or]
          rw [← (hrest : get config = get (setting.write base))] at hfirst
          exact hfirst

/-- What the value of an option is parsed to. -/
inductive Parsed (hardwareConcurrency : Nat) (value : Bytes) : LongOption → Setting → Prop
  | config : Parsed hardwareConcurrency value .config .nothing
  | host : Parsed hardwareConcurrency value .host (.host value)
  | port {port : Int} (h : parsePort value = .ok port) :
      Parsed hardwareConcurrency value .port (.port port)
  | poller {backend : PollerOption} (h : parsePoller value = .ok backend) :
      Parsed hardwareConcurrency value .poller (.pollerBackend backend)
  | subReactors {count : Nat} (h : parseSubReactors hardwareConcurrency value = .ok count) :
      Parsed hardwareConcurrency value .subReactors (.subReactorCount count)
  | logLevel {level : LogLevel} (h : parseLevel value = .ok level) :
      Parsed hardwareConcurrency value .logLevel (.logLevel level)

theorem map_eq_ok {ε α β : Type} {f : α → β} {x : Except ε α} {b : β} (h : f <$> x = .ok b) :
    ∃ a, x = .ok a ∧ b = f a := by
  cases x with
  | error e => cases h
  | ok a => exact ⟨a, rfl, (Except.ok.inj h).symm⟩

theorem parsed_of_setting {hardwareConcurrency : Nat} {value : Bytes} {option : LongOption}
    {setting : Setting} (h : option.setting hardwareConcurrency value = .ok setting) :
    Parsed hardwareConcurrency value option setting := by
  cases option with
  | config =>
      cases h
      exact .config
  | host =>
      cases h
      exact .host
  | port =>
      obtain ⟨port, hport, rfl⟩ := map_eq_ok h
      exact .port hport
  | poller =>
      obtain ⟨backend, hbackend, rfl⟩ := map_eq_ok h
      exact .poller hbackend
  | subReactors =>
      obtain ⟨count, hcount, rfl⟩ := map_eq_ok h
      exact .subReactors hcount
  | logLevel =>
      obtain ⟨level, hlevel, rfl⟩ := map_eq_ok h
      exact .logLevel hlevel

/-- An option with a value sets its own field and no other. -/
theorem overridden_parsed {hardwareConcurrency : Nat} {value : Value} {option : LongOption}
    {setting : Setting} (h : Parsed hardwareConcurrency value option setting)
    (config : AppConfig) :
    Overridden hardwareConcurrency config [.separate option value] (setting.write config) := by
  cases h with
  | config => exact ⟨rfl, rfl, rfl, rfl, rfl, rfl, rfl, rfl⟩
  | host => exact ⟨rfl, rfl, rfl, rfl, rfl, rfl, rfl, rfl⟩
  | port hport => exact ⟨rfl, hport, rfl, rfl, rfl, rfl, rfl, rfl⟩
  | poller hbackend => exact ⟨rfl, rfl, hbackend, rfl, rfl, rfl, rfl, rfl⟩
  | subReactors hcount => exact ⟨rfl, rfl, rfl, hcount, rfl, rfl, rfl, rfl⟩
  | logLevel hlevel => exact ⟨rfl, rfl, rfl, rfl, hlevel, rfl, rfl, rfl⟩

/-- What one occurrence sets. -/
theorem overridden_single {hardwareConcurrency : Nat} {o : Occurrence} {setting : Setting}
    (h : o.setting hardwareConcurrency = .ok setting) (config : AppConfig) :
    Overridden hardwareConcurrency config [o] (setting.write config) := by
  cases o with
  | separate option value => exact overridden_parsed (parsed_of_setting h) config
  | inline option value =>
      have hset : Overridden hardwareConcurrency config [.separate option value] _ :=
        overridden_parsed (parsed_of_setting h) config
      exact ⟨hset.host, hset.port, hset.pollerBackend, hset.subReactorCount, hset.logLevel,
        hset.network, hset.shutdown, hset.sweepInterval⟩
  | shortConfig value =>
      cases h
      exact ⟨rfl, rfl, rfl, rfl, rfl, rfl, rfl, rfl⟩
  | help =>
      cases h
      exact ⟨rfl, rfl, rfl, rfl, rfl, rfl, rfl, rfl⟩
  | shortHelp =>
      cases h
      exact ⟨rfl, rfl, rfl, rfl, rfl, rfl, rfl, rfl⟩

/-- The fields that no option sets are those of the base. -/
theorem writeAll_rest {hardwareConcurrency : Nat} {occurrences : List Occurrence}
    {base config : AppConfig} (h : writeAll hardwareConcurrency occurrences base = .ok config) :
    config.network = base.network ∧ config.shutdown = base.shutdown ∧
      config.sweepInterval = base.sweepInterval := by
  induction occurrences generalizing base with
  | nil =>
      cases h
      exact ⟨rfl, rfl, rfl⟩
  | cons o rest ih =>
      obtain ⟨setting, hsetting, h⟩ := bind_eq_ok.mp h
      have hfirst := overridden_single hsetting base
      obtain ⟨hnetwork, hshutdown, hsweep⟩ := ih h
      exact ⟨hnetwork.trans hfirst.network, hshutdown.trans hfirst.shutdown,
        hsweep.trans hfirst.sweepInterval⟩

theorem overridden_writeAll {hardwareConcurrency : Nat} {occurrences : List Occurrence}
    {base config : AppConfig} (h : writeAll hardwareConcurrency occurrences base = .ok config) :
    Overridden hardwareConcurrency base occurrences config := by
  obtain ⟨hnetwork, hshutdown, hsweep⟩ := writeAll_rest h
  constructor
  · exact sets_writeAll AppConfig.host
      (fun o setting config hs => (overridden_single hs config).host) h
  · exact sets_writeAll AppConfig.port
      (fun o setting config hs => (overridden_single hs config).port) h
  · exact sets_writeAll (fun config => config.reactor.pollerBackend)
      (fun o setting config hs => (overridden_single hs config).pollerBackend) h
  · exact sets_writeAll (fun config => config.reactor.subReactorCount)
      (fun o setting config hs => (overridden_single hs config).subReactorCount) h
  · exact sets_writeAll AppConfig.logLevel
      (fun o setting config hs => (overridden_single hs config).logLevel) h
  · exact hnetwork
  · exact hshutdown
  · exact hsweep

/-! ### Respelling and reordering -/

theorem writeAll_append (hardwareConcurrency : Nat) (before after : List Occurrence)
    (base : AppConfig) :
    writeAll hardwareConcurrency (before ++ after) base =
      writeAll hardwareConcurrency before base >>= writeAll hardwareConcurrency after := by
  induction before generalizing base with
  | nil => rfl
  | cons o rest ih =>
      rw [List.cons_append, writeAll, writeAll, bind_assoc]
      congr 1
      funext setting
      exact ih (setting.write base)

/-- The option whose field a setting sets. -/
def Setting.field : Setting → Option LongOption
  | .nothing => none
  | .host _ => some .host
  | .port _ => some .port
  | .pollerBackend _ => some .poller
  | .subReactorCount _ => some .subReactors
  | .logLevel _ => some .logLevel

theorem field_parsed {hardwareConcurrency : Nat} {value : Value} {option : LongOption}
    {setting : Setting} (h : Parsed hardwareConcurrency value option setting) :
    setting.field = (Occurrence.separate option value).field := by
  cases h <;> rfl

theorem field_setting {hardwareConcurrency : Nat} {o : Occurrence} {setting : Setting}
    (h : o.setting hardwareConcurrency = .ok setting) : setting.field = o.field := by
  cases o with
  | separate option value => exact field_parsed (parsed_of_setting h)
  | inline option value =>
      have hfield : setting.field = (Occurrence.separate option value).field :=
        field_parsed (parsed_of_setting h)
      rw [hfield]
      cases option <;> rfl
  | shortConfig value =>
      cases h
      rfl
  | help =>
      cases h
      rfl
  | shortHelp =>
      cases h
      rfl

/-- Settings of different fields can be written in either order. -/
theorem write_comm {s t : Setting} (h : ∀ option, s.field = some option → t.field ≠ some option)
    (config : AppConfig) : t.write (s.write config) = s.write (t.write config) := by
  cases s <;> cases t <;> first | rfl | exact absurd rfl (h _ rfl)

theorem writeAll_exchange {hardwareConcurrency : Nat} {p q : Occurrence} (hapart : p.Apart q)
    {after : List Occurrence} {base config : AppConfig}
    (h : writeAll hardwareConcurrency (p :: q :: after) base = .ok config) :
    writeAll hardwareConcurrency (q :: p :: after) base = .ok config := by
  obtain ⟨first, hfirst, h⟩ := bind_eq_ok.mp h
  obtain ⟨second, hsecond, h⟩ := bind_eq_ok.mp h
  have hfield : ∀ option, first.field = some option → second.field ≠ some option := by
    rw [field_setting hfirst, field_setting hsecond]
    exact hapart
  apply bind_eq_ok.mpr
  refine ⟨second, hsecond, bind_eq_ok.mpr ⟨first, hfirst, ?_⟩⟩
  rw [← write_comm hfield]
  exact h

/-- Rewritten options leave the same configuration. -/
theorem writeAll_rewritten {hardwareConcurrency : Nat} {occurrences occurrences' : List Occurrence}
    (hrewritten : Rewritten occurrences occurrences') {base config : AppConfig}
    (h : writeAll hardwareConcurrency occurrences base = .ok config) :
    writeAll hardwareConcurrency occurrences' base = .ok config := by
  cases hrewritten with
  | inline before after option value =>
      rw [writeAll_append] at h ⊢
      exact h
  | exchange before after hapart =>
      rw [writeAll_append] at h ⊢
      obtain ⟨middle, hbefore, h⟩ := bind_eq_ok.mp h
      exact bind_eq_ok.mpr ⟨middle, hbefore, writeAll_exchange hapart h⟩

/-! ### The overrides -/

theorem applyCommandLineOverrides_spells (hardwareConcurrency : Nat) {argv : List Bytes}
    {occurrences : List Occurrence} (h : Spells argv occurrences) (base : AppConfig) :
    (applyCommandLineOverrides hardwareConcurrency argv base).map Prod.snd =
      writeAll hardwareConcurrency occurrences base :=
  applyLoop_spells hardwareConcurrency occurrences (Nat.le_add_left ..) h

/-- Accepted arguments spell options, whose settings make up the configuration. -/
theorem exists_writeAll {hardwareConcurrency : Nat} {argv : List Bytes}
    {base config : AppConfig} {skipped : List (Nat × Bytes)}
    (h : applyCommandLineOverrides hardwareConcurrency argv base = .ok (skipped, config)) :
    ∃ occurrences, Spells argv occurrences ∧
      writeAll hardwareConcurrency occurrences base = .ok config := by
  obtain ⟨occurrences, hspells⟩ := spells_of_applyLoop (Nat.le_add_left ..) h
  refine ⟨occurrences, hspells, ?_⟩
  rw [← applyCommandLineOverrides_spells hardwareConcurrency hspells, h]
  rfl

/-- Accepted arguments spell exactly one sequence of options. Each option sets its own field
to the parsed value of its last occurrence, no other field changes, and rewritten options are
accepted with the same configuration. -/
theorem applyCommandLineOverrides_overrides (hardwareConcurrency : Nat) (argv : List Bytes)
    (base config : AppConfig) (skipped : List (Nat × Bytes))
    (h : applyCommandLineOverrides hardwareConcurrency argv base = .ok (skipped, config)) :
    ∃ occurrences, Spells argv occurrences ∧
      (∀ occurrences', Spells argv occurrences' → occurrences' = occurrences) ∧
      Overridden hardwareConcurrency base occurrences config ∧
      ∀ argv' occurrences', Rewritten occurrences occurrences' → Spells argv' occurrences' →
        ∃ skipped', applyCommandLineOverrides hardwareConcurrency argv' base =
          .ok (skipped', config) := by
  obtain ⟨occurrences, hspells, hwritten⟩ := exists_writeAll h
  refine ⟨occurrences, hspells, ?_, overridden_writeAll hwritten, ?_⟩
  · intro occurrences' hspells'
    exact flatMap_arguments_inj (hspells'.symm.trans hspells)
  · intro argv' occurrences' hrewritten hspells'
    have hsame := applyCommandLineOverrides_spells hardwareConcurrency hspells' base
    rw [writeAll_rewritten hrewritten hwritten] at hsame
    obtain ⟨⟨skipped', config'⟩, happly, hconfig⟩ := map_eq_ok hsame
    exact ⟨skipped', hconfig ▸ happly⟩

/-- Two ports, the first of which is overridden by the second. -/
theorem applyCommandLineOverrides_overrides_last :
    let argv := [ascii "tinykv_server", ascii "--port", ascii "1", ascii "--port=2"]
    let config : AppConfig := { port := 2 }
    ∃ occurrences, Spells argv occurrences ∧
      (∀ occurrences', Spells argv occurrences' → occurrences' = occurrences) ∧
      Overridden 8 {} occurrences config ∧
      ∀ argv' occurrences', Rewritten occurrences occurrences' → Spells argv' occurrences' →
        ∃ skipped', applyCommandLineOverrides 8 argv' {} = .ok (skipped', config) :=
  applyCommandLineOverrides_overrides 8 _ {} { port := 2 } [] rfl

end TinyKv.CommandLine
