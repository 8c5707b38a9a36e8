import RowPolicy.Proofs.RegistryRuns

/-!
# Generations

A generation number names one published snapshot for good. It moves on by one with every publication,
and a step that publishes nothing leaves the whole snapshot as it is, so that two moments of a run
with one generation have one snapshot. What readers keep, snapshots and rules that they looked up, is
not touched by later steps.
-/

namespace RowPolicy

namespace Registry

-- Comparing two fingerprints must not set off the computation of a digest.
attribute [local irreducible] policiesFingerprint policiesText

variable {registry : Registry}

/-! ## One step -/

/-- The generation moves on by one with a registration and with a reload that reports a change, which
is a change of fingerprint. It stays with a reload that reports none or that fails. -/
structure Advances (registry : Registry) (step : Step) : Prop where
  registered : ∀ entity set, step = .register entity set →
    (registry.step step).1.generation = registry.generation + 1
  changed : ∀ outcome, (registry.step step).2 = some outcome → outcome.changed = true →
    (registry.step step).1.generation = registry.generation + 1 ∧
      (registry.step step).1.current.fingerprint ≠ registry.current.fingerprint
  unchanged : ∀ outcome, (registry.step step).2 = some outcome → outcome.changed = false →
    (registry.step step).1.generation = registry.generation
  failed : ∀ disk compiler directory error, step = .reloadFrom disk compiler directory →
    registry.reloadFrom disk compiler directory = .error error →
    (registry.step step).1.generation = registry.generation

@[simp] theorem generation_publish (registry : Registry) (policies : Dict PolicySet) :
    (registry.publish policies).generation = registry.generation + 1 := rfl

@[simp] theorem fingerprint_publish (registry : Registry) (policies : Dict PolicySet) :
    (registry.publish policies).current.fingerprint = policiesFingerprint policies := rfl

/-- What a step does to the registry: it leaves it alone and reports no change, or it publishes and
reports a change of fingerprint if it reports anything. -/
theorem step_keeps_or_publishes (registry : Registry) (step : Step) :
    ((registry.step step).1 = registry ∧ (∀ entity set, step ≠ .register entity set) ∧
        ∀ outcome, (registry.step step).2 = some outcome → outcome.changed = false) ∨
      ∃ policies, (registry.step step).1 = registry.publish policies ∧
        ∀ outcome, (registry.step step).2 = some outcome → outcome.changed = true ∧
          policiesFingerprint policies ≠ registry.current.fingerprint := by
  obtain ⟨sets, hincoming⟩ | ⟨entity, set, rfl⟩ | ⟨disk, compiler, directory, error, rfl, hload⟩ :=
    step.replaces_or_registers_or_fails
  · rw [step_of_incoming hincoming]
    by_cases heq : registry.current.fingerprint = policiesFingerprint (Dict.ofList sets)
    · rw [reload_of_fingerprint_eq heq]
      refine Or.inl ⟨rfl, ?_, ?_⟩
      · rintro entity set rfl
        cases hincoming
      · rintro _ ⟨⟩
        rfl
    · rw [reload_of_fingerprint_ne heq]
      refine Or.inr ⟨Dict.ofList sets, rfl, ?_⟩
      rintro _ ⟨⟩
      exact ⟨rfl, Ne.symm heq⟩
  · exact Or.inr ⟨_, rfl, fun _ => nofun⟩
  · rw [step_of_reloadFrom_error hload]
    exact Or.inl ⟨rfl, fun _ _ => nofun, fun _ => nofun⟩

theorem advances (registry : Registry) (step : Step) : registry.Advances step := by
  have hfailed : ∀ disk compiler directory error, step = .reloadFrom disk compiler directory →
      registry.reloadFrom disk compiler directory = .error error →
      (registry.step step).1.generation = registry.generation := by
    rintro disk compiler directory error rfl herror
    rw [Registry.step, herror]
  rcases registry.step_keeps_or_publishes step with
    ⟨hkept, hregister, hreport⟩ | ⟨policies, hnext, hreport⟩
  · refine ⟨?_, ?_, ?_, hfailed⟩
    · intro entity set heq
      exact absurd heq (hregister entity set)
    · intro outcome houtcome hchanged
      rw [hreport outcome houtcome] at hchanged
      cases hchanged
    · intro _ _ _
      rw [hkept]
  · refine ⟨?_, ?_, ?_, hfailed⟩
    · intro _ _ _
      rw [hnext, generation_publish]
    · intro outcome houtcome _
      rw [hnext, generation_publish, fingerprint_publish]
      exact ⟨rfl, (hreport outcome houtcome).2⟩
    · intro outcome houtcome hunchanged
      rw [(hreport outcome houtcome).1] at hunchanged
      cases hunchanged

/-! ## Runs -/

theorem generation_step_le (registry : Registry) (step : Step) :
    registry.generation ≤ (registry.step step).1.generation ∧
      (registry.step step).1.generation ≤ registry.generation + 1 := by
  rcases registry.step_keeps_or_publishes step with ⟨hkept, -⟩ | ⟨policies, hnext, -⟩
  · rw [hkept]
    omega
  · rw [hnext, generation_publish]
    omega

theorem generation_le_run (registry : Registry) (steps : List Step) :
    registry.generation ≤ (registry.run steps).generation := by
  induction steps generalizing registry with
  | nil => exact Nat.le_refl _
  | cons step steps ih => exact (registry.generation_step_le step).1.trans (ih _)

theorem generation_run_le (registry : Registry) (steps : List Step) :
    (registry.run steps).generation ≤ registry.generation + steps.length := by
  induction steps generalizing registry with
  | nil => exact Nat.le_refl _
  | cons step steps ih =>
      have hstep := (registry.generation_step_le step).2
      have hrest := ih (registry.step step).1
      rw [List.length_cons]
      exact hrest.trans (by omega)

/-- A run that comes back to the generation it started from has published nothing. -/
theorem run_eq_self_of_generation_eq {steps : List Step}
    (h : (registry.run steps).generation = registry.generation) : registry.run steps = registry := by
  induction steps generalizing registry with
  | nil => rfl
  | cons step steps ih =>
      have hrun : registry.run (step :: steps) = (registry.step step).1.run steps := rfl
      rw [hrun] at h ⊢
      rcases registry.step_keeps_or_publishes step with ⟨hkept, -⟩ | ⟨policies, hnext, -⟩
      · rw [hkept] at h ⊢
        exact ih h
      · -- After a publication the generation is greater, and the rest does not take it back.
        have hle := (registry.step step).1.generation_le_run steps
        rw [hnext, generation_publish] at hle
        rw [hnext] at h
        omega

theorem current_eq_of_earlier {before before' : List Step} (hmoment : before <+: before')
    (h : (registry.run before).generation = (registry.run before').generation) :
    (registry.run before).current = (registry.run before').current := by
  obtain ⟨after, rfl⟩ := hmoment
  rw [run_append] at h ⊢
  rw [run_eq_self_of_generation_eq h.symm]

/-- At two moments of a run with one generation the snapshot is the same. -/
theorem current_eq_of_generation_eq {steps before before' : List Step} (hmoment : before <+: steps)
    (hmoment' : before' <+: steps)
    (h : (registry.run before).generation = (registry.run before').generation) :
    (registry.run before).current = (registry.run before').current := by
  rcases List.prefix_or_prefix_of_prefix hmoment hmoment' with hearlier | hearlier
  · exact current_eq_of_earlier hearlier h
  · exact (current_eq_of_earlier hearlier h.symm).symm

end Registry

/-! ## What readers keep -/

/-- What is done with a registry in use: steps, and between them readers who keep the current snapshot
or a rule that they look up. -/
inductive Use
  | step (step : Step)
  | keepSnapshot
  | keepRule (entity : String) (operation : Operation)

def Use.step? : Use → Option Step
  | .step taken => some taken
  | .keepSnapshot | .keepRule _ _ => none

structure Session where
  registry : Registry
  snapshots : List Snapshot
  rules : List RuleRef

namespace Session

def new : Session := ⟨Registry.new, [], []⟩

def use (session : Session) : Use → Session
  | .step step => { session with registry := (session.registry.step step).1 }
  | .keepSnapshot =>
    { session with snapshots := session.snapshots ++ [session.registry.current] }
  | .keepRule entity operation =>
    match session.registry.lookup entity operation with
    | .ok ref => { session with rules := session.rules ++ [ref] }
    | .error _ => session

def run (session : Session) (uses : List Use) : Session := uses.foldl use session

def steps (uses : List Use) : List Step := uses.filterMap Use.step?

theorem run_append (session : Session) (before after : List Use) :
    session.run (before ++ after) = (session.run before).run after :=
  List.foldl_append

theorem keeps_use (session : Session) (use : Use) :
    session.snapshots <+: (session.use use).snapshots ∧ session.rules <+: (session.use use).rules := by
  cases use with
  | step step => exact ⟨List.prefix_rfl, List.prefix_rfl⟩
  | keepSnapshot => exact ⟨List.prefix_append _ _, List.prefix_rfl⟩
  | keepRule entity operation =>
      rw [Session.use]
      split
      · exact ⟨List.prefix_rfl, List.prefix_append _ _⟩
      · exact ⟨List.prefix_rfl, List.prefix_rfl⟩

theorem keeps_run (session : Session) (uses : List Use) :
    session.snapshots <+: (session.run uses).snapshots ∧
      session.rules <+: (session.run uses).rules := by
  induction uses generalizing session with
  | nil => exact ⟨List.prefix_rfl, List.prefix_rfl⟩
  | cons use uses ih =>
      have huse := session.keeps_use use
      have hrest := ih (session.use use)
      exact ⟨huse.1.trans hrest.1, huse.2.trans hrest.2⟩

theorem registry_run (session : Session) (uses : List Use) :
    (session.run uses).registry = session.registry.run (steps uses) := by
  induction uses generalizing session with
  | nil => rfl
  | cons use uses ih =>
      have hrest := ih (session.use use)
      cases use with
      | step step => exact hrest
      | keepSnapshot => exact hrest
      | keepRule entity operation =>
          have hkept : (session.use (.keepRule entity operation)).registry = session.registry := by
            rw [Session.use]
            split <;> rfl
          rw [hkept] at hrest
          exact hrest

theorem getElem?_length_of_append {α : Type} {before after : List α} {a : α}
    (h : before ++ [a] <+: after) : after[before.length]? = some a := by
  obtain ⟨rest, rfl⟩ := h
  simp

/-- A snapshot that a reader keeps is found in its place after any later uses. -/
theorem snapshots_run (before after : List Use) :
    (new.run (before ++ .keepSnapshot :: after)).snapshots[(new.run before).snapshots.length]? =
      some (Registry.new.run (steps before)).current := by
  have hregistry : (new.run before).registry = Registry.new.run (steps before) :=
    new.registry_run before
  rw [run_append, ← hregistry]
  apply getElem?_length_of_append
  exact (((new.run before).use .keepSnapshot).keeps_run after).1

theorem rules_run {before : List Use} {entity : String} {operation : Operation} {ref : RuleRef}
    (h : (Registry.new.run (steps before)).lookup entity operation = .ok ref) (after : List Use) :
    (new.run (before ++ .keepRule entity operation :: after)).rules[(new.run before).rules.length]? =
      some ref := by
  have hregistry : (new.run before).registry = Registry.new.run (steps before) :=
    new.registry_run before
  rw [← hregistry] at h
  have huse : ((new.run before).use (.keepRule entity operation)).rules =
      (new.run before).rules ++ [ref] := by
    rw [Session.use, h]
  rw [run_append]
  apply getElem?_length_of_append
  rw [← huse]
  exact (((new.run before).use (.keepRule entity operation)).keeps_run after).2

end Session

/-- The generation of a new registry is zero and moves as `Registry.Advances` says, never back and at
most once a step. One generation stands for one snapshot in all of a run. A snapshot or a rule that a
reader keeps answers, after any later uses, as the registry answered at that moment. -/
theorem generation_names_snapshot :
    Registry.new.generation = 0 ∧
    (∀ (steps : List Step) (step : Step), (Registry.new.run steps).Advances step) ∧
    (∀ before after : List Step,
      (Registry.new.run before).generation ≤ (Registry.new.run (before ++ after)).generation) ∧
    (∀ steps : List Step, (Registry.new.run steps).generation ≤ steps.length) ∧
    (∀ steps before before' : List Step, before <+: steps → before' <+: steps →
      (Registry.new.run before).generation = (Registry.new.run before').generation →
      (Registry.new.run before).current = (Registry.new.run before').current) ∧
    (∀ before after : List Use, ∃ kept,
      (Session.new.run (before ++ .keepSnapshot :: after)).snapshots[
        (Session.new.run before).snapshots.length]? = some kept ∧
      ∀ entity operation,
        kept.policySet entity = (Registry.new.run (Session.steps before)).policySet entity ∧
        kept.lookup entity operation =
          (Registry.new.run (Session.steps before)).lookup entity operation) ∧
    ∀ (before after : List Use) (entity : String) (operation : Operation) (ref : RuleRef),
      (Registry.new.run (Session.steps before)).lookup entity operation = .ok ref →
      (Session.new.run (before ++ .keepRule entity operation :: after)).rules[
        (Session.new.run before).rules.length]? = some ref := by
  refine ⟨rfl, ?advances, ?monotone, ?bound, ?names, ?snapshots, ?rules⟩
  case advances => exact fun steps => (Registry.new.run steps).advances
  case monotone =>
    intro before after
    rw [Registry.run_append]
    exact (Registry.new.run before).generation_le_run after
  case bound =>
    intro steps
    have hle := Registry.new.generation_run_le steps
    rwa [show Registry.new.generation = 0 from rfl, Nat.zero_add] at hle
  case names =>
    intro steps before before' hmoment hmoment' h
    exact Registry.current_eq_of_generation_eq hmoment hmoment' h
  case snapshots =>
    intro before after
    exact ⟨_, Session.snapshots_run before after, fun _ _ => ⟨rfl, rfl⟩⟩
  case rules =>
    intro before after entity operation ref h
    exact Session.rules_run h after

def openedPost : Step := .register "post" .unrestricted

def rankedPost : Step := .reload [("post", ⟨rank, rank⟩)]

def absentPosts : Step := .reloadFrom Registry.ownedPosts {} "absent"

/-- A reload that changes the policies after a registration, and one that fails after that. -/
theorem generation_names_snapshot_rankedPost :
    (Registry.new.run ([openedPost] ++ [rankedPost])).generation = 2 ∧
    (Registry.new.run ([openedPost] ++ [rankedPost])).current =
      (Registry.new.run (([openedPost] ++ [rankedPost]) ++ [absentPosts])).current ∧
    (Registry.new.run ([openedPost] ++ [rankedPost])).current.fingerprint ≠
      (Registry.new.run [openedPost]).current.fingerprint ∧
    (Session.new.run ([.step openedPost] ++ .keepRule "post" .write :: [.step rankedPost])).rules[0]? =
      some ⟨.unrestricted, .write⟩ := by
  obtain ⟨-, hadvances, -, -, hnames, -, hrules⟩ := generation_names_snapshot
  have hchange : ((Registry.new.run [openedPost]).step rankedPost).2.map
      ReloadOutcome.changed = some true := by decide +kernel
  obtain ⟨outcome, houtcome, hchanged⟩ := Option.map_eq_some_iff.mp hchange
  have hreload := (hadvances [openedPost] rankedPost).changed outcome houtcome hchanged
  rw [← Registry.run_append_singleton] at hreload
  have hfailed := (hadvances ([openedPost] ++ [rankedPost]) absentPosts).failed _ _ _ _ rfl rfl
  rw [← Registry.run_append_singleton] at hfailed
  refine ⟨hreload.1, ?_, hreload.2, hrules [.step openedPost] [.step rankedPost] "post" .write _ rfl⟩
  exact hnames _ _ _ (List.prefix_append _ _) List.prefix_rfl hfailed.symm

end RowPolicy
