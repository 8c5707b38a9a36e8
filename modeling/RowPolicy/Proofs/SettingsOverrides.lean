import RowPolicy.Proofs.RuleGrammar
import RowPolicy.Proofs.SettingValues

/-!
# Settings overridden by the environment

The variables that are set override their settings one after the other, which leaves each setting
with what its own variable says. Overriding fails only for a count or a truth value that is spelled
wrongly, and the first such variable is reported. What the compiler accepts follows from the
attributes that are configured in the end.
-/

namespace RowPolicy

theorem InvalidVariable.message_eq {name : Variable} {front : String}
    (h : "Invalid value for " ++ name.name ++ ": " = front) (text : String) :
    message ⟨name, text⟩ = front ++ text :=
  congrArg (· ++ text) h

namespace Settings

variable {settings after : Settings} {name : Variable} {text : String} {environment : Environment}

/-- A setting has a value that the text of its variable says, or its old one without such a text. -/
def SaidOrKept {α : Type} (meaning : String → α → Prop) (text? : Option String)
    (before after : α) : Prop :=
  match text? with
  | some text => meaning text after
  | none => after = before

@[simp] theorem saidOrKept_some {α : Type} {meaning : String → α → Prop} {before after : α} :
    SaidOrKept meaning (some text) before after ↔ meaning text after := Iff.rfl

@[simp] theorem saidOrKept_none {α : Type} {meaning : String → α → Prop} {before after : α} :
    SaidOrKept meaning none before after ↔ after = before := Iff.rfl

def Follows (environment : Environment) (before after : Settings) (name : Variable) : Prop :=
  SaidOrKept name.Says (environment.get? name.name) (before.get name) (after.get name)

/-- A variable is set to a text that says nothing about its setting. -/
def Misspelled (environment : Environment) (error : InvalidVariable) : Prop :=
  environment.get? error.name.name = some error.value ∧ ∀ value, ¬ error.name.Says error.value value

def overrideBy (environment : Environment) (settings : Settings) (name : Variable) :
    Except InvalidVariable Settings :=
  match environment.get? name.name with
  | some text => settings.override name text
  | none => .ok settings

theorem overrideBy_eq_ok_iff : overrideBy environment settings name = .ok after ↔
    Follows environment settings after name ∧
      ∀ other, other ≠ name → after.get other = settings.get other := by
  rw [overrideBy, Follows]
  cases environment.get? name.name with
  | some text => exact override_eq_ok_iff
  | none =>
      have hself : settings.set name (settings.get name) = settings :=
        set_eq_iff.mpr ⟨rfl, fun _ _ => rfl⟩
      rw [saidOrKept_none, Except.ok.injEq, ← set_eq_iff, hself]

theorem overrideBy_eq_error_iff {error : InvalidVariable} :
    overrideBy environment settings name = .error error ↔
      Misspelled environment error ∧ error.name = name := by
  obtain ⟨name', value⟩ := error
  rw [overrideBy, Misspelled]
  constructor
  · intro h
    cases hget : environment.get? name.name with
    | none => simp [hget] at h
    | some text =>
        rw [hget] at h
        obtain ⟨hsaid, heq⟩ := override_eq_error_iff.mp h
        cases heq
        exact ⟨⟨hget, hsaid⟩, rfl⟩
  · rintro ⟨⟨hget, hsaid⟩, rfl⟩
    rw [hget]
    exact override_eq_error_iff.mpr ⟨hsaid, rfl⟩

theorem follows_congr {before before' after' : Settings}
    (hbefore : before.get name = before'.get name) (hafter : after.get name = after'.get name) :
    Follows environment before after name ↔ Follows environment before' after' name := by
  rw [Follows, Follows, hbefore, hafter]

/-- Overriding some settings, each of them once: those follow their variables, and the others stay
what they are. The induction is on the variables still to be looked at. -/
theorem foldlM_overrideBy_eq_ok_iff {names : List Variable} (hnodup : names.Nodup) :
    names.foldlM (overrideBy environment) settings = .ok after ↔
      (∀ name ∈ names, Follows environment settings after name) ∧
        ∀ name, name ∉ names → after.get name = settings.get name := by
  induction names generalizing settings with
  | nil =>
      simp only [List.foldlM_nil, pure, Except.pure, Except.ok.injEq, List.not_mem_nil,
        not_false_eq_true, forall_const, false_imp_iff, implies_true, true_and]
      exact ⟨fun heq _ => heq ▸ rfl, fun h => (ext_get h).symm⟩
  | cons first names ih =>
      obtain ⟨hfresh, hnodup⟩ := List.nodup_cons.mp hnodup
      rw [List.foldlM_cons, bind_eq_ok_iff]
      constructor
      · rintro ⟨middle, hstep, hrest⟩
        obtain ⟨hfollows, hkept⟩ := overrideBy_eq_ok_iff.mp hstep
        obtain ⟨hnames, hothers⟩ := (ih hnodup).mp hrest
        refine ⟨List.forall_mem_cons.mpr ⟨?_, ?_⟩, ?_⟩
        · exact (follows_congr rfl (hothers first hfresh)).mpr hfollows
        · intro name hname
          have hmiddle := hkept name (ne_of_mem_of_not_mem hname hfresh)
          exact (follows_congr hmiddle rfl).mp (hnames name hname)
        · intro name hname
          obtain ⟨hne, hname⟩ := not_or.mp (mt List.mem_cons.mpr hname)
          rw [hothers name hname, hkept name hne]
      · rintro ⟨hnames, hothers⟩
        obtain ⟨hfollows, hnames⟩ := List.forall_mem_cons.mp hnames
        -- The settings after the first variable differ from the old ones in its setting only.
        obtain ⟨hself, hkept⟩ := set_eq_iff.mp (rfl : settings.set first (after.get first) = _)
        refine ⟨settings.set first (after.get first), ?_, (ih hnodup).mpr ⟨?_, ?_⟩⟩
        · exact overrideBy_eq_ok_iff.mpr ⟨(follows_congr rfl hself).mpr hfollows, hkept⟩
        · intro name hname
          have hmiddle := hkept name (ne_of_mem_of_not_mem hname hfresh)
          exact (follows_congr hmiddle rfl).mpr (hnames name hname)
        · intro name hname
          by_cases heq : name = first
          · subst heq
            exact hself.symm
          · rw [hkept name heq, hothers name (by simp [heq, hname])]

/-- The first variable that is misspelled is reported. -/
theorem foldlM_overrideBy_eq_error_iff {names : List Variable} {error : InvalidVariable} :
    names.foldlM (overrideBy environment) settings = .error error ↔
      Misspelled environment error ∧ ∃ earlier later, names = earlier ++ error.name :: later ∧
        ∀ other, Misspelled environment other → other.name ∉ earlier := by
  induction names generalizing settings with
  | nil => simp [pure, Except.pure]
  | cons first names ih =>
      rw [List.foldlM_cons, bind_eq_error_iff, overrideBy_eq_error_iff]
      constructor
      · rintro (⟨hmisspelled, rfl⟩ | ⟨middle, hstep, hrest⟩)
        · exact ⟨hmisspelled, [], names, rfl, fun _ _ => List.not_mem_nil⟩
        · obtain ⟨hmisspelled, earlier, later, rfl, hearlier⟩ := ih.mp hrest
          refine ⟨hmisspelled, first :: earlier, later, rfl, ?_⟩
          intro other hother hmem
          rcases List.mem_cons.mp hmem with hfirst | hmem
          · rw [overrideBy_eq_error_iff.mpr ⟨hother, hfirst⟩] at hstep
            cases hstep
          · exact hearlier other hother hmem
      · rintro ⟨hmisspelled, earlier, later, hsplit, hearlier⟩
        cases earlier with
        | nil =>
            rw [List.nil_append, List.cons.injEq] at hsplit
            exact Or.inl ⟨hmisspelled, hsplit.1.symm⟩
        | cons first' earlier =>
            rw [List.cons_append, List.cons.injEq] at hsplit
            obtain ⟨rfl, rfl⟩ := hsplit
            cases hstep : overrideBy environment settings first with
            | error other =>
                obtain ⟨hother, hname⟩ := overrideBy_eq_error_iff.mp hstep
                exact absurd (hname ▸ List.mem_cons_self) (hearlier other hother)
            | ok middle =>
                refine Or.inr ⟨middle, rfl, ih.mpr ⟨hmisspelled, earlier, later, rfl, ?_⟩⟩
                exact fun other hother hmem => hearlier other hother (List.mem_cons_of_mem _ hmem)

theorem overrideAll_eq_foldlM : settings.overrideAll environment =
    Variable.all.foldlM (overrideBy environment) settings := rfl

theorem overrideAll_eq_ok_iff : settings.overrideAll environment = .ok after ↔
    ∀ name, Follows environment settings after name := by
  rw [overrideAll_eq_foldlM, foldlM_overrideBy_eq_ok_iff (by decide)]
  constructor
  · exact fun h name => h.1 name name.mem_all
  · exact fun h => ⟨fun name _ => h name, fun name hname => absurd name.mem_all hname⟩

/-- Only a count and a truth value can be misspelled. -/
theorem Misspelled.name_eq {error : InvalidVariable} (h : Misspelled environment error) :
    error.name = .pollSeconds ∨ error.name = .trace := by
  obtain ⟨name, text⟩ := error
  obtain ⟨-, hsaid⟩ := h
  cases name with
  | pollSeconds => exact Or.inl rfl
  | trace => exact Or.inr rfl
  | attributes => exact absurd (names_eq_iff.mp rfl) (hsaid (names text))
  | _ => exact absurd rfl (hsaid text)

theorem overrideAll_eq_error_iff {error : InvalidVariable} :
    settings.overrideAll environment = .error error ↔
      Misspelled environment error ∧ (error.name = .pollSeconds ∨ error.name = .trace ∧
        ∀ other, Misspelled environment other → other.name ≠ .pollSeconds) := by
  rw [overrideAll_eq_foldlM, foldlM_overrideBy_eq_error_iff]
  refine and_congr_right fun hmisspelled => ?_
  constructor
  · rintro ⟨earlier, later, hsplit, hearlier⟩
    refine hmisspelled.name_eq.imp_right fun htrace => ⟨htrace, ?_⟩
    intro other hother hname
    apply hearlier other hother
    rw [hname]
    rw [htrace, Variable.all] at hsplit
    match earlier, hsplit with
    | first :: second :: earlier, hsplit =>
        have hsecond : Variable.pollSeconds = second :=
          Option.some.inj (congrArg (fun names : List Variable => names[1]?) hsplit)
        rw [hsecond]
        exact List.mem_cons_of_mem _ List.mem_cons_self
  · rintro (hname | ⟨hname, hfirst⟩)
    · refine ⟨[.schemaDirectory], _, by rw [hname]; rfl, ?_⟩
      intro other hother hmem
      rcases hother.name_eq with heq | heq <;> rw [heq] at hmem <;> revert hmem <;> decide
    · refine ⟨[.schemaDirectory, .pollSeconds, .attributes], _, by rw [hname]; rfl, ?_⟩
      intro other hother hmem
      have heq := hother.name_eq.resolve_left (hfirst other hother)
      rw [heq] at hmem
      revert hmem
      decide

/-- A text spells a number of seconds: a count of sixty-four bits. -/
def SpellsSeconds (text : String) : Prop := ∃ count < UInt64.size, SpellsCount text count

theorem misspelled_pollSeconds_iff {text : String} : Misspelled environment ⟨.pollSeconds, text⟩ ↔
    environment.get? "RLS_POLL_INTERVAL_SECS" = some text ∧ ¬ SpellsSeconds text := by
  refine and_congr_right fun _ => ?_
  constructor
  · rintro hsaid ⟨count, hlt, hspells⟩
    refine hsaid (UInt64.ofNat count) ?_
    change SpellsCount text (UInt64.ofNat count).toNat
    rwa [UInt64.toNat_ofNat_of_lt' hlt]
  · intro hspells (count : UInt64) hsaid
    exact hspells ⟨_, count.toNat_lt, hsaid⟩

theorem misspelled_trace_iff {text : String} : Misspelled environment ⟨.trace, text⟩ ↔
    environment.get? "RLS_TRACE" = some text ∧ ¬ ∃ value, SpellsSwitch text value :=
  and_congr_right fun _ => not_exists.symm

theorem spelled_pollSeconds_iff : (∀ text, environment.get? "RLS_POLL_INTERVAL_SECS" = some text →
    SpellsSeconds text) ↔ ∀ error, Misspelled environment error → error.name ≠ .pollSeconds := by
  constructor
  · rintro hspells ⟨name, text⟩ herror rfl
    obtain ⟨hget, hwrong⟩ := misspelled_pollSeconds_iff.mp herror
    exact hwrong (hspells text hget)
  · intro hnone text hget
    by_contra hwrong
    exact hnone ⟨.pollSeconds, text⟩ (misspelled_pollSeconds_iff.mpr ⟨hget, hwrong⟩) rfl

theorem spelled_trace_iff : (∀ text, environment.get? "RLS_TRACE" = some text →
    ∃ value, SpellsSwitch text value) ↔
      ∀ error, Misspelled environment error → error.name ≠ .trace := by
  constructor
  · rintro hspells ⟨name, text⟩ herror rfl
    obtain ⟨hget, hwrong⟩ := misspelled_trace_iff.mp herror
    exact hwrong (hspells text hget)
  · intro hnone text hget
    by_contra hwrong
    exact hnone ⟨.trace, text⟩ (misspelled_trace_iff.mpr ⟨hget, hwrong⟩) rfl

theorem exists_overrideAll_eq_ok_iff :
    (∃ after, settings.overrideAll environment = .ok after) ↔
      ∀ error, ¬ Misspelled environment error := by
  cases hall : settings.overrideAll environment with
  | error error =>
      obtain ⟨hmisspelled, -⟩ := overrideAll_eq_error_iff.mp hall
      refine iff_of_false ?_ fun hnone => hnone error hmisspelled
      rintro ⟨after, hafter⟩
      cases hafter
  | ok after =>
      refine iff_of_true ⟨after, rfl⟩ ?_
      rintro error ⟨hget, hsaid⟩
      have hfollows := overrideAll_eq_ok_iff.mp hall error.name
      rw [Follows, hget] at hfollows
      exact hsaid _ hfollows

/-- Settings that follow their variables are not changed by them again. -/
theorem Follows.again (h : Follows environment settings after name) :
    Follows environment after after name := by
  rw [Follows] at h ⊢
  cases hget : environment.get? name.name with
  | none => rfl
  | some text =>
      rw [hget] at h
      exact h

theorem overridden_eq_ok_iff : settings.overridden environment = .ok after ↔
    ∀ name, Follows environment settings after name := by
  rw [overridden, mapError_eq_ok_iff, overrideAll_eq_ok_iff]

/-- The settings of a file are overridden, or the defaults if there is no file. -/
theorem loadOrDefault_eq_ok_iff {disk : Disk} {path : String} :
    loadOrDefault disk environment path = .ok after ↔
      (disk.occupied path = false ∧ ∀ name, Follows environment {} after name) ∨
      ∃ text start, disk.read? path = some text ∧ parse? text = some start ∧
        ∀ name, Follows environment start after name := by
  rw [loadOrDefault]
  cases hoccupied : disk.occupied path with
  | false =>
      have hread : disk.read? path = none := by
        rw [Disk.occupied] at hoccupied
        rw [Disk.read?]
        cases hfind : disk.find path <;> simp [hfind] at hoccupied ⊢
      simp [hread, overridden_eq_ok_iff]
  | true =>
      rw [if_pos rfl, load]
      cases disk.read? path with
      | none => simp
      | some text =>
          cases hparse : parse? text with
          | none => simp [hparse]
          | some start => simp [hparse, overridden_eq_ok_iff]

/-! ## All settings -/

/-- Each setting follows its own variable, and no other one. -/
structure OverriddenBy (environment : Environment) (before after : Settings) : Prop where
  schemaDirectory : SaidOrKept (fun text directory => directory = text)
    (environment.get? "RLS_SCHEMA_DIR") before.schemas.directory after.schemas.directory
  pollSeconds : SaidOrKept (fun text seconds => SpellsCount text seconds.toNat)
    (environment.get? "RLS_POLL_INTERVAL_SECS") before.schemas.pollSeconds after.schemas.pollSeconds
  attributes : SaidOrKept Lists
    (environment.get? "RLS_PRINCIPAL_ATTRIBUTES") before.principal.attributes
    after.principal.attributes
  trace : SaidOrKept SpellsSwitch
    (environment.get? "RLS_TRACE") before.evaluation.trace after.evaluation.trace
  logLevel : SaidOrKept (fun text level => level = text)
    (environment.get? "RUST_LOG") before.logging.level after.logging.level
  logFormat : SaidOrKept (fun text format => format = text)
    (environment.get? "LOG_FORMAT") before.logging.format after.logging.format
  logOutput : SaidOrKept (fun text output => output = text)
    (environment.get? "LOG_OUTPUT") before.logging.output after.logging.output
  logDirectory : SaidOrKept (fun text directory => directory = text)
    (environment.get? "LOG_DIR") before.logging.directory after.logging.directory

theorem overriddenBy_iff : OverriddenBy environment settings after ↔
    ∀ name, Follows environment settings after name := by
  constructor
  · intro h name
    cases name with
    | schemaDirectory => exact h.schemaDirectory
    | pollSeconds => exact h.pollSeconds
    | attributes => exact h.attributes
    | trace => exact h.trace
    | logLevel => exact h.logLevel
    | logFormat => exact h.logFormat
    | logOutput => exact h.logOutput
    | logDirectory => exact h.logDirectory
  · intro h
    exact ⟨h .schemaDirectory, h .pollSeconds, h .attributes, h .trace, h .logLevel, h .logFormat,
      h .logOutput, h .logDirectory⟩

/-- Settings that an environment has no more to say about. The compiler accepts the references to
the attributes that it lists and no others. -/
structure Settled (environment : Environment) (after : Settings) : Prop where
  again : after.overrideAll environment = .ok after
  listed : ∀ list items, WrittenAs (list.map String.toList) items →
    environment.get? "RLS_PRINCIPAL_ATTRIBUTES" = some (String.ofList ([','].intercalate items)) →
      after.principal.attributes = list
  resolved : ∀ raw name, after.compiler.scope.resolve raw = .ok (.template ⟨name⟩) ↔
    Template.RefersTo raw name ∧ name ∈ after.principal.attributes
  compiled : ∀ raw, (∃ rule, after.compiler.compile raw = .ok rule) ↔
    WellFormed after.principal.attributes raw

theorem OverriddenBy.settled (h : OverriddenBy environment settings after) :
    Settled environment after where
  again := overrideAll_eq_ok_iff.mpr fun name => (overriddenBy_iff.mp h name).again
  listed := by
    intro list items hwritten hget
    have hlists : Lists (String.ofList ([','].intercalate items)) list :=
      ⟨items, hwritten, String.toList_ofList⟩
    have hattributes := h.attributes
    rw [hget, saidOrKept_some, ← names_eq_iff] at hattributes
    exact hattributes.symm.trans (names_eq_iff.mpr hlists)
  resolved := by
    intro raw name
    rw [Namespace.resolve_eq_template_iff]
    exact and_congr_right fun _ => List.contains_iff_mem
  compiled := fun _ => exists_compile_iff

/-- Overriding succeeds exactly when the two variables that can be misspelled are not, and reports
the first one that is. It sets each setting to what its variable says and leaves the others alone,
once and for all. However the configured attributes are listed, the compiler accepts the references
to these attributes and no others. -/
theorem overrides_reach_own_settings (settings : Settings) (environment : Environment) :
    ((∃ after, settings.overrideAll environment = .ok after) ↔
      (∀ text, environment.get? "RLS_POLL_INTERVAL_SECS" = some text → SpellsSeconds text) ∧
      ∀ text, environment.get? "RLS_TRACE" = some text → ∃ value, SpellsSwitch text value) ∧
    (∀ error, settings.overrideAll environment = .error error ↔
      (error.name = .pollSeconds ∧
        error.message = "Invalid value for RLS_POLL_INTERVAL_SECS: " ++ error.value ∧
        environment.get? "RLS_POLL_INTERVAL_SECS" = some error.value ∧
        ¬ SpellsSeconds error.value) ∨
      (error.name = .trace ∧ error.message = "Invalid value for RLS_TRACE: " ++ error.value ∧
        environment.get? "RLS_TRACE" = some error.value ∧
        (¬ ∃ value, SpellsSwitch error.value value) ∧
        ∀ text, environment.get? "RLS_POLL_INTERVAL_SECS" = some text → SpellsSeconds text)) ∧
    (∀ after, settings.overrideAll environment = .ok after ↔
      OverriddenBy environment settings after) ∧
    (∀ after, settings.overrideAll environment = .ok after → Settled environment after) ∧
    ∀ disk path after, loadOrDefault disk environment path = .ok after ↔
      (disk.occupied path = false ∧ OverriddenBy environment {} after) ∨
      ∃ text start, disk.read? path = some text ∧ parse? text = some start ∧
        OverriddenBy environment start after := by
  simp only [overriddenBy_iff]
  refine ⟨?succeeds, ?fails, fun _ => overrideAll_eq_ok_iff, ?result, ?loaded⟩
  case succeeds =>
    rw [exists_overrideAll_eq_ok_iff, spelled_pollSeconds_iff, spelled_trace_iff]
    constructor
    · exact fun hnone => ⟨fun error herror => absurd herror (hnone error),
        fun error herror => absurd herror (hnone error)⟩
    · rintro ⟨hpoll, htrace⟩ error herror
      exact herror.name_eq.elim (hpoll error herror) (htrace error herror)
  case fails =>
    rintro ⟨name, text⟩
    rw [overrideAll_eq_error_iff, spelled_pollSeconds_iff]
    constructor
    · rintro ⟨herror, rfl | ⟨rfl, hfirst⟩⟩
      · exact Or.inl ⟨rfl, InvalidVariable.message_eq (by decide) text,
          misspelled_pollSeconds_iff.mp herror⟩
      · obtain ⟨hget, hwrong⟩ := misspelled_trace_iff.mp herror
        exact Or.inr ⟨rfl, InvalidVariable.message_eq (by decide) text, hget, hwrong, hfirst⟩
    · rintro (⟨rfl, -, herror⟩ | ⟨rfl, -, hget, hwrong, hfirst⟩)
      · exact ⟨misspelled_pollSeconds_iff.mpr herror, Or.inl rfl⟩
      · exact ⟨misspelled_trace_iff.mpr ⟨hget, hwrong⟩, Or.inr ⟨rfl, hfirst⟩⟩
  case result =>
    intro after hafter
    exact (overriddenBy_iff.mpr (overrideAll_eq_ok_iff.mp hafter)).settled
  case loaded => exact fun _ _ _ => loadOrDefault_eq_ok_iff

def tracedTeams : Environment :=
  Dict.ofList [("RLS_PRINCIPAL_ATTRIBUTES", " email,,\tteam "), ("RLS_TRACE", "YES"),
    ("LOG_FORMAT", "json")]

theorem writtenAs_tracedTeams : WrittenAs (["email", "team"].map String.toList)
    [[' '] ++ (['e', 'm', 'a', 'i', 'l'] ++ []), [],
      ['\t'] ++ (['t', 'e', 'a', 'm'] ++ [' '])] := by
  have hemail : IsListed ['e', 'm', 'a', 'i', 'l'] :=
    ⟨by decide, by decide, Text.stops_cons.mpr (by decide), Text.stops_cons.mpr (by decide)⟩
  have hteam : IsListed ['t', 'e', 'a', 'm'] :=
    ⟨by decide, by decide, Text.stops_cons.mpr (by decide), Text.stops_cons.mpr (by decide)⟩
  have hnone : ∀ c ∈ ([] : List Char), Text.isBlank c = true := nofun
  have hspace : ∀ c ∈ [' '], Text.isBlank c = true := List.forall_mem_singleton.mpr (by decide)
  have htab : ∀ c ∈ ['\t'], Text.isBlank c = true := List.forall_mem_singleton.mpr (by decide)
  exact .name hspace hnone hemail (.empty hnone (.name htab hspace hteam .nil))

theorem overrides_reach_own_settings_tracedTeams :
    ∃ after, ({} : Settings).overrideAll tracedTeams = .ok after ∧
      after.overrideAll tracedTeams = .ok after ∧ after.evaluation.trace = true ∧
      after.logging.format = "json" ∧ after.logging.output = "console" ∧
      after.principal.attributes = ["email", "team"] ∧
      after.compiler.scope.resolve "\x7b\x7buser.team\x7d\x7d" = .ok (.template ⟨"team"⟩) := by
  have hpoll : tracedTeams.get? "RLS_POLL_INTERVAL_SECS" = none := by decide +kernel
  have htrace : tracedTeams.get? "RLS_TRACE" = some "YES" := by decide +kernel
  have hformat : tracedTeams.get? "LOG_FORMAT" = some "json" := by decide +kernel
  have houtput : tracedTeams.get? "LOG_OUTPUT" = none := by decide +kernel
  have hlist : tracedTeams.get? "RLS_PRINCIPAL_ATTRIBUTES" = some (String.ofList
      ([','].intercalate [[' '] ++ (['e', 'm', 'a', 'i', 'l'] ++ []), [],
        ['\t'] ++ (['t', 'e', 'a', 'm'] ++ [' '])])) := by
    decide +kernel
  have hspells : ∀ value, SpellsSwitch "YES" value ↔ value = true := by
    simp only [SpellsSwitch]
    decide +kernel
  obtain ⟨hsucceeds, -, hfollows, hresult, -⟩ := overrides_reach_own_settings {} tracedTeams
  have hexists : ∃ after, ({} : Settings).overrideAll tracedTeams = .ok after := by
    rw [hsucceeds, hpoll, htrace]
    refine ⟨fun _ => nofun, ?_⟩
    rintro _ ⟨⟩
    exact ⟨true, (hspells true).mpr rfl⟩
  obtain ⟨after, hafter⟩ := hexists
  have hsettled := hresult after hafter
  have hoverridden := (hfollows after).mp hafter
  have hnames := hsettled.listed _ _ writtenAs_tracedTeams hlist
  refine ⟨after, hafter, hsettled.again, ?_, ?_, ?_, hnames, ?_⟩
  · have hsaid := hoverridden.trace
    rw [htrace, saidOrKept_some] at hsaid
    exact (hspells _).mp hsaid
  · have hsaid := hoverridden.logFormat
    rwa [hformat, saidOrKept_some] at hsaid
  · have hkept := hoverridden.logOutput
    rwa [houtput, saidOrKept_none] at hkept
  · rw [hsettled.resolved, hnames]
    exact ⟨Template.parse_eq_template_iff.mp rfl, by decide⟩

end Settings

end RowPolicy
