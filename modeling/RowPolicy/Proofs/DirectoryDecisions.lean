import RowPolicy.Proofs.DirectReading
import RowPolicy.Proofs.DirectoryLoading
import RowPolicy.Proofs.EngineAnswers

/-!
# Decisions after a directory was loaded

After a directory has been loaded, requests are decided by what its schema files declare and by
nothing else: an entity is known when exactly one schema file names it, and a request is allowed
when the rule declared there allows it. A directory that fails to load changes no decision.
-/

namespace RowPolicy

def declaredRule (read write : Json) : Operation → Json
  | .read => read
  | .write => write

theorem Compiles.ne_null {scope : Namespace} {raw : Json} {rule : Rule}
    (h : Compiles scope raw rule) : raw ≠ .null := by
  cases h <;> exact Json.noConfusion

theorem evaluate_rule_iff {compiler : Compiler} {read write : Json} {set : PolicySet}
    (hread : compiler.compile read = .ok set.read) (hwrite : compiler.compile write = .ok set.write)
    (operation : Operation) (principal : Principal) (record : Option Record) :
    (set.rule operation).evaluate principal record = true ↔
      Allows principal record (declaredRule read write operation) := by
  cases operation with
  | read => exact (compile_eq_ok_iff.mp hread).evaluate_iff
  | write => exact (compile_eq_ok_iff.mp hwrite).evaluate_iff

namespace Engine

variable {engine : Engine} {entity : String}

theorem decide_of_none (h : engine.registry.current.policies.get? entity = none)
    (operation : Operation) (principal : Principal) (record : Option Record) :
    engine.decide entity operation principal record = .error ⟨entity⟩ := by
  rw [decide, Registry.policySet, Snapshot.policySet, h]

theorem decide_of_some {set : PolicySet}
    (h : engine.registry.current.policies.get? entity = some set)
    (operation : Operation) (principal : Principal) (record : Option Record) :
    ∃ decision, engine.decide entity operation principal record = .ok decision ∧
      decision.allow = (set.rule operation).evaluate principal record := by
  rw [decide, Registry.policySet, Snapshot.policySet, h]
  refine ⟨_, rfl, ?_⟩
  cases engine.trace with
  | true => exact PolicySet.decideTraced_allow set operation
  | false => exact PolicySet.decide_allow set operation

/-- Requests are decided by what the schema files of a directory declare, and by nothing else. -/
structure Serves (engine : Engine) (disk : Disk) (compiler : Compiler) (directory : String) :
    Prop where
  known : ∀ entity operation principal record,
    (∃ decision, engine.decide entity operation principal record = .ok decision) ↔
      ∃! name, DirectoryNames disk directory name entity
  declared : ∀ entity name, DirectoryNames disk directory name entity →
    ∃ document read write readRule writeRule,
      readSchema disk (Path.join directory name) = .ok document ∧
      document.Declares read write ∧ read ≠ .null ∧ write ≠ .null ∧
      compiler.compile read = .ok readRule ∧ compiler.compile write = .ok writeRule ∧
      ∀ operation principal record, ∃ decision,
        engine.decide entity operation principal record = .ok decision ∧
        engine.isAllowed entity operation principal record = decision.allow ∧
        (decision.allow = true ↔ Allows principal record (declaredRule read write operation))
  unknown : ∀ entity, (¬ ∃! name, DirectoryNames disk directory name entity) →
    ∀ operation principal record,
      engine.decide entity operation principal record = .error ⟨entity⟩ ∧
      engine.isAllowed entity operation principal record = false

section Loaded

variable {disk : Disk} {compiler : Compiler} {directory : String} {sets : List EntityPolicies}

/-- With the policies of a loaded directory, an entity is looked up exactly when a file names it. -/
theorem get?_isSome_iff (hload : loadDirectory disk compiler directory = .ok sets)
    (hpolicies : engine.registry.current.policies = Dict.ofList sets) :
    (∃ set, engine.registry.current.policies.get? entity = some set) ↔
      ∃! name, DirectoryNames disk directory name entity := by
  rw [existsUnique_file_iff hload, hpolicies]
  simp only [Dict.get?_ofList_eq_some_iff (nodup_of_loadDirectory hload)]

theorem known_of_loadDirectory (hload : loadDirectory disk compiler directory = .ok sets)
    (hpolicies : engine.registry.current.policies = Dict.ofList sets)
    (operation : Operation) (principal : Principal) (record : Option Record) :
    (∃ decision, engine.decide entity operation principal record = .ok decision) ↔
      ∃! name, DirectoryNames disk directory name entity := by
  rw [← get?_isSome_iff hload hpolicies]
  constructor
  · rintro ⟨decision, hdecide⟩
    cases hget : engine.registry.current.policies.get? entity with
    | none =>
        rw [decide_of_none hget] at hdecide
        cases hdecide
    | some set => exact ⟨set, rfl⟩
  · rintro ⟨set, hget⟩
    obtain ⟨decision, hdecide, -⟩ := decide_of_some hget operation principal record
    exact ⟨decision, hdecide⟩

theorem serves_of_loadDirectory (hload : loadDirectory disk compiler directory = .ok sets)
    (hpolicies : engine.registry.current.policies = Dict.ofList sets) :
    engine.Serves disk compiler directory where
  known := fun _ => known_of_loadDirectory hload hpolicies
  declared := by
    intro entity name hnames
    obtain ⟨set, hmem, hfile⟩ := exists_mem_of_file hload hnames
    obtain ⟨document, read, write, hread, -, hdeclares, hreadRule, hwriteRule⟩ :=
      loadFile_eq_ok_iff.mp hfile
    have hget : engine.registry.current.policies.get? entity = some set := by
      rw [hpolicies]
      exact (Dict.get?_ofList_eq_some_iff (nodup_of_loadDirectory hload)).mpr hmem
    refine ⟨document, read, write, set.read, set.write, hread, hdeclares,
      (compile_eq_ok_iff.mp hreadRule).ne_null, (compile_eq_ok_iff.mp hwriteRule).ne_null,
      hreadRule, hwriteRule, ?_⟩
    intro operation principal record
    obtain ⟨decision, hdecide, hallow⟩ := decide_of_some hget operation principal record
    refine ⟨decision, hdecide, isAllowed_of_ok hdecide, ?_⟩
    rw [hallow]
    exact evaluate_rule_iff hreadRule hwriteRule operation principal record
  unknown := by
    intro entity hnone operation principal record
    have hget : engine.registry.current.policies.get? entity = none := by
      rw [← get?_isSome_iff hload hpolicies] at hnone
      exact Option.eq_none_iff_forall_not_mem.mpr fun set hset => hnone ⟨set, hset⟩
    have hdecide := decide_of_none hget operation principal record
    exact ⟨hdecide, isAllowed_of_error hdecide⟩

end Loaded

end Engine

namespace Registry

variable {disk : Disk} {compiler : Compiler} {directory : String}

theorem reloadFrom_eq_ok_iff {registry after : Registry} {outcome : ReloadOutcome} :
    registry.reloadFrom disk compiler directory = .ok (after, outcome) ↔ ∃ sets,
      loadDirectory disk compiler directory = .ok sets ∧
        registry.reload sets = (after, outcome) := by
  rw [reloadFrom]
  cases loadDirectory disk compiler directory with
  | error error => simp
  | ok sets => simp

theorem reloadFrom_eq_error_iff {registry : Registry} {error : SchemaError} :
    registry.reloadFrom disk compiler directory = .error error ↔
      loadDirectory disk compiler directory = .error error := by
  rw [reloadFrom]
  cases loadDirectory disk compiler directory with
  | error error => simp
  | ok sets => simp

/-- The skipped reload does not serve policies other than the loaded ones. -/
theorem policies_of_reloadFrom {steps : List Step}
    (hfree : Sha256.CollisionFree (hashedTexts (steps ++ [.reloadFrom disk compiler directory])))
    {sets : List EntityPolicies} (hload : loadDirectory disk compiler directory = .ok sets) :
    ((new.run steps).reload sets).1.current.policies = Dict.ofList sets := by
  obtain ⟨htracks, htexts⟩ := tracks_run hfree
  have hincoming := Step.incoming?_reloadFrom.mpr hload
  have htext := htexts _ (List.mem_append_left _ (mem_stepTexts hincoming))
  exact reload_policies htracks.fingerprinted (hfree _ htracks.hashed _ htext)

end Registry

/-- After any run of a registry, loading a directory makes every decision follow the schema files of
the directory; a directory that fails to load leaves every decision as it was. -/
theorem decisions_follow_directory (steps : List Step) (disk : Disk) (compiler : Compiler)
    (directory : String) (trace : Bool)
    (hfree : Sha256.CollisionFree (hashedTexts (steps ++ [.reloadFrom disk compiler directory]))) :
    (∀ after outcome,
      (Registry.new.run steps).reloadFrom disk compiler directory = .ok (after, outcome) →
        Engine.Serves ⟨after, trace⟩ disk compiler directory) ∧
    (∀ error, (Registry.new.run steps).reloadFrom disk compiler directory = .error error →
      ∀ entity operation principal record,
        Engine.decide ⟨Registry.new.run (steps ++ [.reloadFrom disk compiler directory]), trace⟩
            entity operation principal record =
          Engine.decide ⟨Registry.new.run steps, trace⟩ entity operation principal record ∧
        Engine.isAllowed ⟨Registry.new.run (steps ++ [.reloadFrom disk compiler directory]), trace⟩
            entity operation principal record =
          Engine.isAllowed ⟨Registry.new.run steps, trace⟩ entity operation principal record) := by
  constructor
  · intro after outcome hreload
    obtain ⟨sets, hload, hafter⟩ := Registry.reloadFrom_eq_ok_iff.mp hreload
    have hpolicies := Registry.policies_of_reloadFrom hfree hload
    rw [hafter] at hpolicies
    exact Engine.serves_of_loadDirectory hload hpolicies
  · intro error hreload entity operation principal record
    have hload := Registry.reloadFrom_eq_error_iff.mp hreload
    have hafter : Registry.new.run (steps ++ [.reloadFrom disk compiler directory]) =
        Registry.new.run steps := by
      rw [Registry.run_append_singleton, Registry.step_of_reloadFrom_error hload]
    rw [hafter]
    exact ⟨rfl, rfl⟩

/-- A run that leaves a policy set in the registry which no schema file declares. -/
def openedPosts : List Step := [.register "post" .unrestricted]

def writesPost (registry : Registry) (id owner : Nat) : Bool :=
  Engine.isAllowed ⟨registry, true⟩ "post" .write (.ofList [("id", .ofNat id)])
    (some (.ofList [("owner", .ofNat owner)]))

theorem decisions_follow_directory_openedPosts :
    (∃ after outcome, (Registry.new.run openedPosts).reloadFrom Registry.ownedPosts {} "schemas" =
        .ok (after, outcome) ∧ Engine.Serves ⟨after, true⟩ Registry.ownedPosts {} "schemas" ∧
      writesPost (Registry.new.run openedPosts) 1 2 = true ∧ writesPost after 1 1 = true ∧
      writesPost after 1 2 = false) ∧
    ∃ error, (Registry.new.run openedPosts).reloadFrom Registry.ownedPosts {} "absent" =
        .error error ∧
      Engine.isAllowed ⟨Registry.new.run (openedPosts ++
          [.reloadFrom Registry.ownedPosts {} "absent"]), true⟩ "post" .write .anonymous none =
        Engine.isAllowed ⟨Registry.new.run openedPosts, true⟩ "post" .write .anonymous none := by
  constructor
  · have hfree : Sha256.CollisionFree
        (hashedTexts (openedPosts ++ [.reloadFrom Registry.ownedPosts {} "schemas"])) := by
      decide +kernel
    have hserves := (decisions_follow_directory openedPosts Registry.ownedPosts {} "schemas" true
      hfree).1
    have hopened : writesPost (Registry.new.run openedPosts) 1 2 = true := by decide +kernel
    have hanswers : ((Registry.new.run openedPosts).reloadFrom Registry.ownedPosts {}
        "schemas").toOption.map (fun result => (writesPost result.1 1 1, writesPost result.1 1 2)) =
          some (true, false) := by
      decide +kernel
    cases hreload : (Registry.new.run openedPosts).reloadFrom Registry.ownedPosts {} "schemas" with
    | error error =>
        rw [hreload] at hanswers
        cases hanswers
    | ok result =>
        rw [hreload] at hanswers
        obtain ⟨hallowed, hdenied⟩ := Prod.mk.inj (Option.some.inj hanswers)
        exact ⟨result.1, result.2, rfl, hserves _ _ hreload, hopened, hallowed, hdenied⟩
  · have hfree : Sha256.CollisionFree
        (hashedTexts (openedPosts ++ [.reloadFrom Registry.ownedPosts {} "absent"])) := by
      decide +kernel
    have hkept := (decisions_follow_directory openedPosts Registry.ownedPosts {} "absent" true
      hfree).2
    have hreload : (Registry.new.run openedPosts).reloadFrom Registry.ownedPosts {} "absent" =
        .error (.unreadable "absent") := Registry.reloadFrom_eq_error_iff.mpr rfl
    exact ⟨_, hreload, (hkept _ hreload "post" .write .anonymous none).2⟩

end RowPolicy
