import RowPolicy.Proofs.PolicyText
import RowPolicy.Schema.Loading
import Mathlib.Data.Set.Card

/-!
# Runs of a registry

Seen from outside, a registry is a map from entities to policy sets: a registration sets one entity,
a reload replaces the map, and a reload that fails to load leaves it alone. A reload compares
fingerprints only, so a run follows the map as long as the texts that it hashes do not collide.
-/

namespace RowPolicy

abbrev PolicyMap := String → Option PolicySet

inductive Step
  | register (entity : String) (set : PolicySet)
  | reload (sets : List EntityPolicies)
  | reloadFrom (disk : Disk) (compiler : Compiler) (directory : String)

/-- The policies that a step puts in place of all others, if it does. -/
def Step.incoming? : Step → Option (List EntityPolicies)
  | .register _ _ => none
  | .reload sets => some sets
  | .reloadFrom disk compiler directory => (loadDirectory disk compiler directory).toOption

namespace PolicyMap

def empty : PolicyMap := fun _ => none

/-- The map of a list, in which the last entry of an entity wins. -/
def ofList (sets : List EntityPolicies) : PolicyMap :=
  sets.foldl (fun map entry => Function.update map entry.1 (some entry.2)) empty

def find (map : PolicyMap) (entity : String) : Except UnknownEntity PolicySet :=
  match map entity with
  | some set => .ok set
  | none => .error ⟨entity⟩

def step (map : PolicyMap) : Step → PolicyMap
  | .register entity set => Function.update map entity (some set)
  | .reload sets => ofList sets
  | .reloadFrom disk compiler directory =>
    match loadDirectory disk compiler directory with
    | .ok sets => ofList sets
    | .error _ => map

def run (map : PolicyMap) (steps : List Step) : PolicyMap := steps.foldl step map

end PolicyMap

namespace Registry

def step (registry : Registry) : Step → Registry × Option ReloadOutcome
  | .register entity set => (registry.register entity set, none)
  | .reload sets => ((registry.reload sets).1, some (registry.reload sets).2)
  | .reloadFrom disk compiler directory =>
    match registry.reloadFrom disk compiler directory with
    | .ok (next, outcome) => (next, some outcome)
    | .error _ => (registry, none)

def run (registry : Registry) (steps : List Step) : Registry :=
  steps.foldl (fun registry step => (registry.step step).1) registry

/-- The text of the policies that a step publishes or compares with the published ones. -/
def stepTexts (registry : Registry) : Step → List String
  | .register entity set => [policiesText (registry.current.policies.insert entity set)]
  | .reload sets => [policiesText (Dict.ofList sets)]
  | .reloadFrom disk compiler directory =>
    match loadDirectory disk compiler directory with
    | .ok sets => [policiesText (Dict.ofList sets)]
    | .error _ => []

def runTexts (registry : Registry) : List Step → List String
  | [] => []
  | step :: steps => registry.stepTexts step ++ (registry.step step).1.runTexts steps

end Registry

/-- The texts that a run of a new registry hashes. -/
def hashedTexts (steps : List Step) : List String :=
  policiesText Dict.empty :: Registry.new.runTexts steps

/-! ## Kinds of steps -/

namespace Step

@[simp] theorem incoming?_reloadFrom {disk : Disk} {compiler : Compiler} {directory : String}
    {sets : List EntityPolicies} :
    (reloadFrom disk compiler directory).incoming? = some sets ↔
      loadDirectory disk compiler directory = .ok sets := by
  rw [incoming?]
  cases loadDirectory disk compiler directory with
  | error error => simp [Except.toOption]
  | ok loaded => simp [Except.toOption]

theorem replaces_or_registers_or_fails (step : Step) :
    (∃ sets, step.incoming? = some sets) ∨ (∃ entity set, step = .register entity set) ∨
      ∃ disk compiler directory error, step = .reloadFrom disk compiler directory ∧
        loadDirectory disk compiler directory = .error error := by
  cases step with
  | register entity set => exact Or.inr (Or.inl ⟨entity, set, rfl⟩)
  | reload sets => exact Or.inl ⟨sets, rfl⟩
  | reloadFrom disk compiler directory =>
      cases hload : loadDirectory disk compiler directory with
      | error error => exact Or.inr (Or.inr ⟨disk, compiler, directory, error, rfl, hload⟩)
      | ok sets => exact Or.inl ⟨sets, incoming?_reloadFrom.mpr hload⟩

end Step

theorem PolicyMap.step_of_incoming {map : PolicyMap} {step : Step} {sets : List EntityPolicies}
    (h : step.incoming? = some sets) : map.step step = ofList sets := by
  cases step with
  | register entity set => cases h
  | reload sets' =>
      cases h
      rfl
  | reloadFrom disk compiler directory =>
      rw [Step.incoming?_reloadFrom] at h
      rw [PolicyMap.step, h]

/-! ## Dictionaries as maps -/

theorem Dict.get?_insert_eq_update (policies : Dict PolicySet) (entity : String)
    (set : PolicySet) :
    (policies.insert entity set).get? = Function.update policies.get? entity (some set) := by
  funext k
  rw [get?_insert, Function.update_apply]

theorem Dict.get?_ofList_eq_ofList (sets : List EntityPolicies) :
    (Dict.ofList sets).get? = PolicyMap.ofList sets := by
  induction sets using List.reverseRecOn with
  | nil => rfl
  | append_singleton sets entry ih =>
      obtain ⟨entity, set⟩ := entry
      rw [ofList_append_singleton, get?_insert_eq_update, ih, PolicyMap.ofList, PolicyMap.ofList,
        List.foldl_append]
      rfl

theorem Dict.ofList_eq_iff {sets : List EntityPolicies} {policies : Dict PolicySet} :
    Dict.ofList sets = policies ↔ PolicyMap.ofList sets = policies.get? := by
  constructor
  · rintro rfl
    rw [get?_ofList_eq_ofList]
  · intro h
    apply ext_get?
    intro k
    rw [get?_ofList_eq_ofList, h]

/-! ## One step -/

namespace Registry

-- Comparing two fingerprints must not set off the computation of a digest.
attribute [local irreducible] policiesFingerprint policiesText

variable {registry : Registry} {map : PolicyMap} {texts : List String}

def Fingerprinted (registry : Registry) : Prop :=
  registry.current.fingerprint = policiesFingerprint registry.current.policies

@[simp] theorem new_policies : new.current.policies = Dict.empty := rfl

@[simp] theorem fingerprinted_new : new.Fingerprinted := rfl

@[simp] theorem fingerprinted_publish (registry : Registry) (policies : Dict PolicySet) :
    (registry.publish policies).Fingerprinted := rfl

theorem reload_of_fingerprint_eq {sets : List EntityPolicies}
    (h : registry.current.fingerprint = policiesFingerprint (Dict.ofList sets)) :
    registry.reload sets = (registry, outcome registry.current false) := by
  rw [reload, if_pos h]

theorem reload_of_fingerprint_ne {sets : List EntityPolicies}
    (h : registry.current.fingerprint ≠ policiesFingerprint (Dict.ofList sets)) :
    registry.reload sets =
      (registry.publish (Dict.ofList sets),
        outcome (registry.publish (Dict.ofList sets)).current true) := by
  rw [reload, if_neg h]

/-- Without a collision a reload is skipped only for the very policies that are published. -/
theorem fingerprint_eq_iff {sets : List EntityPolicies} (h : registry.Fingerprinted)
    (hfree : ¬ Sha256.Collision (policiesText registry.current.policies)
      (policiesText (Dict.ofList sets))) :
    registry.current.fingerprint = policiesFingerprint (Dict.ofList sets) ↔
      Dict.ofList sets = registry.current.policies := by
  rw [h]
  constructor
  · intro heq
    exact (eq_of_policiesFingerprint_eq hfree heq).symm
  · intro heq
    rw [heq]

theorem reload_policies {sets : List EntityPolicies} (h : registry.Fingerprinted)
    (hfree : ¬ Sha256.Collision (policiesText registry.current.policies)
      (policiesText (Dict.ofList sets))) :
    (registry.reload sets).1.current.policies = Dict.ofList sets := by
  by_cases heq : registry.current.fingerprint = policiesFingerprint (Dict.ofList sets)
  · rw [reload_of_fingerprint_eq heq]
    exact ((fingerprint_eq_iff h hfree).mp heq).symm
  · rw [reload_of_fingerprint_ne heq]
    rfl

theorem Fingerprinted.reload (h : registry.Fingerprinted) (sets : List EntityPolicies) :
    (registry.reload sets).1.Fingerprinted := by
  by_cases heq : registry.current.fingerprint = policiesFingerprint (Dict.ofList sets)
  · rwa [reload_of_fingerprint_eq heq]
  · rw [reload_of_fingerprint_ne heq]
    exact fingerprinted_publish _ _

theorem step_of_incoming {step : Step} {sets : List EntityPolicies}
    (h : step.incoming? = some sets) :
    registry.step step = ((registry.reload sets).1, some (registry.reload sets).2) := by
  cases step with
  | register entity set => cases h
  | reload sets' =>
      cases h
      rfl
  | reloadFrom disk compiler directory =>
      rw [Step.incoming?_reloadFrom] at h
      rw [Registry.step, reloadFrom, h]
      rfl

theorem step_of_reloadFrom_error {disk : Disk} {compiler : Compiler} {directory : String}
    {error : SchemaError} (h : loadDirectory disk compiler directory = .error error) :
    registry.step (.reloadFrom disk compiler directory) = (registry, none) := by
  rw [step, reloadFrom, h]
  rfl

theorem mem_stepTexts {step : Step} {sets : List EntityPolicies}
    (h : step.incoming? = some sets) :
    policiesText (Dict.ofList sets) ∈ registry.stepTexts step := by
  cases step with
  | register entity set => cases h
  | reload sets' =>
      cases h
      exact List.mem_singleton_self _
  | reloadFrom disk compiler directory =>
      rw [Step.incoming?_reloadFrom] at h
      rw [stepTexts, h]
      exact List.mem_singleton_self _

/-! ## Runs -/

/-- The registry holds a map, its fingerprint is up to date, and its text is among the hashed ones.
This is what every step of a run keeps. -/
structure Tracks (texts : List String) (registry : Registry) (map : PolicyMap) : Prop where
  policies : registry.current.policies.get? = map
  fingerprinted : registry.Fingerprinted
  hashed : policiesText registry.current.policies ∈ texts

namespace Tracks

theorem publish {policies : Dict PolicySet} (htext : policiesText policies ∈ texts) :
    Tracks texts (registry.publish policies) policies.get? :=
  ⟨rfl, fingerprinted_publish registry policies, htext⟩

theorem reload (h : Tracks texts registry map) (hfree : Sha256.CollisionFree texts)
    {sets : List EntityPolicies} (htext : policiesText (Dict.ofList sets) ∈ texts) :
    Tracks texts (registry.reload sets).1 (PolicyMap.ofList sets) := by
  have hpolicies := reload_policies h.fingerprinted (hfree _ h.hashed _ htext)
  refine ⟨?_, h.fingerprinted.reload sets, ?_⟩
  · rw [hpolicies, Dict.get?_ofList_eq_ofList]
  · rwa [hpolicies]

theorem step (h : Tracks texts registry map) (hfree : Sha256.CollisionFree texts) {step : Step}
    (htexts : ∀ text ∈ registry.stepTexts step, text ∈ texts) :
    Tracks texts (registry.step step).1 (map.step step) := by
  obtain ⟨sets, hincoming⟩ | ⟨entity, set, rfl⟩ | ⟨disk, compiler, directory, error, rfl, hload⟩ :=
    step.replaces_or_registers_or_fails
  · rw [step_of_incoming hincoming, PolicyMap.step_of_incoming hincoming]
    exact h.reload hfree (htexts _ (mem_stepTexts hincoming))
  · rw [PolicyMap.step, ← h.policies, ← Dict.get?_insert_eq_update]
    exact publish (htexts _ (List.mem_singleton_self _))
  · rw [step_of_reloadFrom_error hload, PolicyMap.step, hload]
    exact h

theorem run (h : Tracks texts registry map) (hfree : Sha256.CollisionFree texts)
    {steps : List Step} (htexts : ∀ text ∈ registry.runTexts steps, text ∈ texts) :
    Tracks texts (registry.run steps) (map.run steps) := by
  induction steps generalizing registry map with
  | nil => exact h
  | cons step steps ih =>
      rw [runTexts, List.forall_mem_append] at htexts
      exact ih (h.step hfree htexts.1) htexts.2

theorem new (htext : policiesText Dict.empty ∈ texts) :
    Tracks texts Registry.new PolicyMap.empty where
  policies := by
    rw [new_policies]
    funext entity
    exact Dict.get?_empty entity
  fingerprinted := fingerprinted_new
  hashed := by rwa [new_policies]

end Tracks

theorem run_append (before after : List Step) :
    registry.run (before ++ after) = (registry.run before).run after :=
  List.foldl_append

theorem run_append_singleton (steps : List Step) (step : Step) :
    registry.run (steps ++ [step]) = ((registry.run steps).step step).1 := by
  rw [run_append]
  rfl

theorem runTexts_append (before after : List Step) :
    registry.runTexts (before ++ after) =
      registry.runTexts before ++ (registry.run before).runTexts after := by
  induction before generalizing registry with
  | nil => rfl
  | cons step before ih =>
      rw [List.cons_append, runTexts, runTexts, ih, List.append_assoc]
      rfl

/-! ## Answers -/

/-- The registry answers every question as the map does. -/
structure Agrees (registry : Registry) (map : PolicyMap) : Prop where
  policySet : ∀ entity, registry.policySet entity = map.find entity
  lookup : ∀ entity operation, (registry.lookup entity operation).map RuleRef.rule =
    (map.find entity).map fun set => set.rule operation
  sorted : registry.current.entities.Pairwise (· < ·)
  entities : ∀ entity, entity ∈ registry.current.entities ↔ (map entity).isSome
  size : {entity | (map entity).isSome}.encard = registry.current.policies.size
  fingerprint : ∃ policies : Dict PolicySet, policies.get? = map ∧
    registry.current.fingerprint = policiesFingerprint policies

/-- A step that puts new policies in place reports the snapshot that is published after it, and
whether these policies are other than those before. Other steps report nothing. -/
structure Reports (registry : Registry) (map : PolicyMap) (step : Step) : Prop where
  quiet : step.incoming? = none → (registry.step step).2 = none
  reported : ∀ sets, step.incoming? = some sets → ∃ outcome, (registry.step step).2 = some outcome ∧
    outcome.generation = (registry.step step).1.generation ∧
    outcome.entities = (registry.step step).1.current.policies.size ∧
    outcome.fingerprint = (registry.step step).1.current.fingerprint ∧
    (outcome.changed = false ↔ PolicyMap.ofList sets = map)

theorem policySet_eq_find (h : registry.current.policies.get? = map) (entity : String) :
    registry.policySet entity = map.find entity := by
  subst h
  rfl

theorem size_eq_encard (policies : Dict PolicySet) :
    {entity | (policies.get? entity).isSome}.encard = policies.size := by
  have hkeys : {entity | (policies.get? entity).isSome} = (policies.keys.toFinset : Set String) := by
    ext entity
    simp
  have hnodup : policies.keys.Nodup := policies.ordered.nodup
  rw [hkeys, Set.encard_coe_eq_coe_finsetCard, List.toFinset_card_of_nodup hnodup, Dict.keys,
    List.length_map, Dict.size]

theorem Tracks.agrees (h : Tracks texts registry map) : registry.Agrees map where
  policySet := policySet_eq_find h.policies
  lookup := by
    intro entity operation
    rw [Registry.lookup, Snapshot.lookup, ← policySet_eq_find h.policies]
    cases hset : registry.current.policySet entity with
    | error error =>
        rw [Registry.policySet, hset]
        rfl
    | ok set =>
        rw [Registry.policySet, hset]
        rfl
  sorted := registry.current.policies.ordered
  entities := by
    intro entity
    rw [← h.policies]
    exact Dict.mem_keys_iff
  size := by
    rw [← h.policies]
    exact size_eq_encard registry.current.policies
  fingerprint := ⟨registry.current.policies, h.policies, h.fingerprinted⟩

theorem Tracks.reports (h : Tracks texts registry map) (hfree : Sha256.CollisionFree texts)
    {step : Step} (htexts : ∀ text ∈ registry.stepTexts step, text ∈ texts) :
    registry.Reports map step where
  quiet := by
    intro hincoming
    obtain ⟨sets, hsets⟩ | ⟨entity, set, rfl⟩ | ⟨disk, compiler, directory, error, rfl, hload⟩ :=
      step.replaces_or_registers_or_fails
    · rw [hincoming] at hsets
      cases hsets
    · rfl
    · rw [step_of_reloadFrom_error hload]
  reported := by
    intro sets hincoming
    have htext := htexts _ (mem_stepTexts hincoming)
    have hskip := fingerprint_eq_iff h.fingerprinted (hfree _ h.hashed _ htext)
    rw [Dict.ofList_eq_iff, h.policies] at hskip
    rw [step_of_incoming hincoming]
    refine ⟨(registry.reload sets).2, rfl, ?_⟩
    by_cases heq : registry.current.fingerprint = policiesFingerprint (Dict.ofList sets)
    · rw [reload_of_fingerprint_eq heq]
      exact ⟨rfl, rfl, rfl, iff_of_true rfl (hskip.mp heq)⟩
    · rw [reload_of_fingerprint_ne heq]
      exact ⟨rfl, rfl, rfl, iff_of_false Bool.noConfusion fun hmap => heq (hskip.mpr hmap)⟩

/-- Up to any point of a run without collisions, the registry has tracked the map, and the texts
hashed from there on are texts of the run. -/
theorem tracks_run {before after : List Step}
    (hfree : Sha256.CollisionFree (hashedTexts (before ++ after))) :
    Tracks (hashedTexts (before ++ after)) (new.run before) (PolicyMap.empty.run before) ∧
      ∀ text ∈ (new.run before).runTexts after, text ∈ hashedTexts (before ++ after) := by
  have htexts : ∀ text ∈ new.runTexts (before ++ after), text ∈ hashedTexts (before ++ after) :=
    fun text htext => List.mem_cons_of_mem _ htext
  rw [runTexts_append, List.forall_mem_append] at htexts
  have hnew : Tracks (hashedTexts (before ++ after)) new PolicyMap.empty :=
    .new List.mem_cons_self
  exact ⟨hnew.run hfree htexts.1, htexts.2⟩

/-- At every point of a run of a new registry, the registry answers as the map of the steps so far,
and what the next step reports is true of the map. -/
theorem run_refines_map (steps : List Step) (hfree : Sha256.CollisionFree (hashedTexts steps)) :
    ∀ before after, before ++ after = steps →
      (new.run before).Agrees (PolicyMap.empty.run before) ∧
      ∀ step rest, after = step :: rest →
        (new.run before).Reports (PolicyMap.empty.run before) step := by
  rintro before after rfl
  obtain ⟨hbefore, htexts⟩ := tracks_run hfree
  refine ⟨hbefore.agrees, ?_⟩
  rintro step rest rfl
  apply hbefore.reports hfree
  intro text htext
  exact htexts text (List.mem_append_left _ htext)

/-- A directory with one schema, whose rule for writing names the owner. -/
def ownedPosts : Disk := Disk.ofList
  [("schemas", .directory ["notes.txt", "post.json"]),
    ("schemas/post.json", .file
      "\x7b\"rls\":\x7b\"read\":\x7b\x7d,\"write\":\x7b\"owner\":\"\x7b\x7buser.id\x7d\x7d\"\x7d\x7d\x7d".toUTF8)]

/-- A registration, a reload that is skipped, a reload that fails and one that succeeds. -/
def mixedRun : List Step :=
  [.register "post" .unrestricted,
    .reload [("post", ⟨rank, rank⟩), ("post", .unrestricted)],
    .reloadFrom ownedPosts {} "absent",
    .reloadFrom ownedPosts {} "schemas"]

theorem run_refines_map_mixedRun :
    Sha256.CollisionFree (hashedTexts mixedRun) ∧
    (new.run mixedRun).Agrees (PolicyMap.empty.run mixedRun) ∧
    (new.run (mixedRun.take 1)).Reports (PolicyMap.empty.run (mixedRun.take 1)) mixedRun[1] := by
  have hfree : Sha256.CollisionFree (hashedTexts mixedRun) := by decide +kernel
  have hrun := run_refines_map mixedRun hfree
  refine ⟨hfree, ?_, ?_⟩
  · exact (hrun mixedRun [] (List.append_nil mixedRun)).1
  · exact (hrun _ _ (List.take_append_drop 1 mixedRun)).2 _ _ rfl

end Registry

end RowPolicy
