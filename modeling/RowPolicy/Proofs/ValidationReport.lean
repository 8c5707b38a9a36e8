import RowPolicy.Proofs.CommandAgreement
import RowPolicy.Proofs.CompiledText
import RowPolicy.Proofs.DirectoryDecisions
import RowPolicy.Proofs.DirectoryErrors

/-!
# What validation promises

Validation loads the schemas by themselves, while the other commands load them into a new registry.
Still it accepts the directories that the others can serve, and reports the entities and the rules
that they show. What it reports of other directories are the schema files that are in the way.
-/

namespace RowPolicy

-- Comparing two registries must not set off the computation of a digest.
attribute [local irreducible] policiesFingerprint policiesText

namespace Command

open Registry (new)

variable {settings : Settings} {disk : Disk} {lines faults : List String} {registry : Registry}

/-! ## The same directory -/

theorem report_eq_ok_iff : report settings disk = .ok lines ↔ ∃ sets,
    loadDirectory disk settings.compiler settings.schemas.directory = .ok sets ∧
      lines = sets.map entityLine := by
  rw [report]
  cases loadDirectory disk settings.compiler settings.schemas.directory <;> simp [eq_comm]

theorem report_eq_error_iff : report settings disk = .error faults ↔ ∃ error,
    loadDirectory disk settings.compiler settings.schemas.directory = .error error ∧
      faults = error.singles.map SchemaError.message := by
  rw [report]
  cases loadDirectory disk settings.compiler settings.schemas.directory <;> simp [eq_comm]

theorem registry_eq_ok_iff : settings.registry disk = .ok registry ↔ ∃ sets,
    loadDirectory disk settings.compiler settings.schemas.directory = .ok sets ∧
      registry = (new.reload sets).1 := by
  rw [Settings.registry, Registry.reloadFrom]
  cases loadDirectory disk settings.compiler settings.schemas.directory <;> simp [eq_comm]

theorem registry_eq_error_iff {failure : CommandError} :
    settings.registry disk = .error failure ↔ ∃ error,
      loadDirectory disk settings.compiler settings.schemas.directory = .error error ∧
        failure = .notLoaded settings.schemas.directory error := by
  rw [Settings.registry, Registry.reloadFrom]
  cases loadDirectory disk settings.compiler settings.schemas.directory <;> simp [eq_comm]

theorem exists_report_iff : (∃ lines, report settings disk = .ok lines) ↔
    ∃ registry, settings.registry disk = .ok registry := by
  simp only [report_eq_ok_iff, registry_eq_ok_iff]
  constructor
  · rintro ⟨lines, sets, hload, -⟩
    exact ⟨_, sets, hload, rfl⟩
  · rintro ⟨registry, sets, hload, -⟩
    exact ⟨_, sets, hload, rfl⟩

theorem exists_registry_iff : (∃ registry, settings.registry disk = .ok registry) ↔
    ∀ directory error, settings.registry disk ≠ .error (.notLoaded directory error) := by
  cases hregistry : settings.registry disk with
  | ok registry => simp
  | error failure =>
      obtain ⟨error, -, rfl⟩ := registry_eq_error_iff.mp hregistry
      simp

/-- With a principal and a record that can be read, the way to the rule ends at the schemas exactly
when they do not load. -/
theorem inquiry_eq_notLoaded_iff {entity principal directory : String} {operation : Operation}
    {record : Option String} {members : List (String × Json)} {row : Option Record}
    {error : SchemaError} (hprincipal : readObject disk .principal principal = .ok members)
    (hrecord : readRecord disk record = .ok row) :
    inquiry settings disk entity operation principal record =
        .error (.notLoaded directory error) ↔
      settings.registry disk = .error (.notLoaded directory error) := by
  rw [inquiry_of_readRecord hrecord, map_eq_error_iff, inquiry_eq_error_iff]
  simp [hprincipal]

/-! ## What is described -/

/-- A printed text shows a value. A text without floats is also read as the value that it shows. -/
structure Shows (text : String) (value : Json) : Prop where
  written : text = value.indented ++ "\n"
  read : value.Integral → Json.Raw.parse? text = some (.ofJson value)

theorem shows_printed (value : Json) : Shows (printed value) value.sorted :=
  ⟨rfl, fun hintegral => Json.Raw.parse?_indented hintegral⟩

/-- What is shown of policies: the generation and the fingerprint of all that are served, and of some
of these the fingerprints and the rules, with all members in order. -/
def shownJson (generation : Json) (fingerprint : String) (shown : List EntityPolicies) : Json :=
  .object [("fingerprint", .string fingerprint), ("generation", generation),
    ("policies", .array (shown.map fun policies => .object [("entity", .string policies.1),
      ("fingerprint", .string policies.2.fingerprint), ("read", policies.2.read.toJson.sorted),
      ("write", policies.2.write.toJson.sorted)]))]

/-- The answer to a request for a description. -/
def Describes (settings : Settings) (disk : Disk) (asked : Option String) (generation : Json)
    (fingerprint : String) (shown : List EntityPolicies) : Prop :=
  ∃ text, run settings disk (.describe asked) = .ok text ∧
    Shows text (shownJson generation fingerprint shown)

theorem sorted_policiesJson (entity : String) (set : PolicySet) :
    (policiesJson entity set).sorted = .object [("entity", .string entity),
      ("fingerprint", .string set.fingerprint), ("read", set.read.toJson.sorted),
      ("write", set.write.toJson.sorted)] := by
  have hkeys : ["entity", "fingerprint", "read", "write"].Pairwise (· < ·) := by decide
  exact Json.sorted_object_of_perm hkeys (.refl _)

theorem sorted_ofNat (n : Nat) : (Json.ofNat n).sorted = .ofNat n := by
  rw [Json.ofNat]
  cases Json.Integer.ofInt? n <;> rfl

theorem sorted_description (generation : Nat) (fingerprint : String) (shown : List EntityPolicies) :
    (Json.object [("generation", .ofNat generation), ("fingerprint", .string fingerprint),
      ("policies", .array (shown.map fun policies => policiesJson policies.1 policies.2))]).sorted =
        shownJson (.ofNat generation) fingerprint shown := by
  have hkeys : ["fingerprint", "generation", "policies"].Pairwise (· < ·) := by decide
  refine Json.sorted_object_of_perm hkeys ?_
  simp only [Json.sortedMembers, Json.sorted, Json.sortedItems_eq_map, List.map_map,
    Function.comp_def, sorted_policiesJson, sorted_ofNat]
  exact .swap _ _ _

theorem run_describe_of_error {failure : CommandError}
    (h : settings.registry disk = .error failure) (asked : Option String) :
    run settings disk (.describe asked) = .error failure := by
  rw [run, description, h]
  rfl

theorem description_of_registry (h : settings.registry disk = .ok registry)
    (asked : Option String) : description settings disk asked =
      (describedEntities registry asked).mapM (describedPolicies registry) >>= fun policies =>
        .ok (.object [("generation", Json.ofNat registry.current.generation),
          ("fingerprint", .string registry.current.fingerprint),
          ("policies", .array policies)]) := by
  rw [description, h]
  rfl

theorem describes_of_shown {asked : Option String} {shown : List EntityPolicies}
    (h : settings.registry disk = .ok registry)
    (hnames : describedEntities registry asked = shown.map Prod.fst)
    (hshown : ∀ policies ∈ shown, registry.current.policies.get? policies.1 = some policies.2) :
    Describes settings disk asked (.ofNat registry.current.generation)
      registry.current.fingerprint shown := by
  have hpolicies : (describedEntities registry asked).mapM (describedPolicies registry) =
      .ok (shown.map fun policies => policiesJson policies.1 policies.2) := by
    rw [hnames, List.mapM_map]
    apply mapM_eq_ok_map
    intro policies hmem
    simp only [Function.comp_apply, describedPolicies, Snapshot.policySet, hshown policies hmem]
  rw [Describes, ← sorted_description]
  refine ⟨_, ?_, shows_printed _⟩
  rw [run, description_of_registry h, hpolicies]
  rfl

theorem describes_all (h : settings.registry disk = .ok registry) :
    Describes settings disk none (.ofNat registry.current.generation)
      registry.current.fingerprint registry.current.policies.entries :=
  describes_of_shown h rfl fun _ hmem => Dict.get?_eq_some_iff.mpr hmem

theorem describes_one {entity : String} {set : PolicySet}
    (h : settings.registry disk = .ok registry)
    (hget : registry.current.policies.get? entity = some set) :
    Describes settings disk (some entity) (.ofNat registry.current.generation)
      registry.current.fingerprint [(entity, set)] :=
  describes_of_shown h rfl (by simpa using hget)

theorem run_describe_unknown {entity : String} (h : settings.registry disk = .ok registry)
    (hget : registry.current.policies.get? entity = none) :
    run settings disk (.describe (some entity)) = .error (.unknownEntity ⟨entity⟩) := by
  have hset : describedPolicies registry entity = .error (.unknownEntity ⟨entity⟩) := by
    rw [describedPolicies, Snapshot.policySet, hget]
  rw [run, description_of_registry h, describedEntities, List.mapM_cons, hset]
  rfl

theorem exists_run_describe_none_iff : (∃ text, run settings disk (.describe none) = .ok text) ↔
    ∃ registry, settings.registry disk = .ok registry := by
  constructor
  · rintro ⟨text, htext⟩
    cases hregistry : settings.registry disk with
    | ok registry => exact ⟨registry, rfl⟩
    | error failure =>
        rw [run_describe_of_error hregistry] at htext
        cases htext
  · rintro ⟨registry, hregistry⟩
    obtain ⟨text, htext, -⟩ := describes_all hregistry
    exact ⟨text, htext⟩

theorem exists_run_describe_some_iff {entity : String}
    (h : settings.registry disk = .ok registry) :
    (∃ text, run settings disk (.describe (some entity)) = .ok text) ↔
      entity ∈ registry.current.entities := by
  rw [Snapshot.entities, Dict.mem_keys_iff]
  cases hget : registry.current.policies.get? entity with
  | none => simp [run_describe_unknown h hget]
  | some set =>
      obtain ⟨text, htext, -⟩ := describes_one h hget
      exact iff_of_true ⟨text, htext⟩ rfl

/-! ## The registry of a directory -/

theorem policies_of_registry {sets : List EntityPolicies}
    (hfree : Sha256.CollisionFree (hashedTexts
      [.reloadFrom disk settings.compiler settings.schemas.directory]))
    (hload : loadDirectory disk settings.compiler settings.schemas.directory = .ok sets) :
    (new.reload sets).1.current.policies = Dict.ofList sets := by
  rw [← List.nil_append [Step.reloadFrom _ _ _]] at hfree
  exact Registry.policies_of_reloadFrom hfree hload

/-- A new registry publishes what it loads, unless there is nothing in it. -/
theorem generation_of_registry {sets : List EntityPolicies}
    (hpolicies : (new.reload sets).1.current.policies = Dict.ofList sets) :
    ∃ generation : Json.Integer, generation.value = (if sets = [] then 0 else 1) ∧
      Json.ofNat (new.reload sets).1.current.generation = .number (.integer generation) := by
  by_cases hskip : new.current.fingerprint = policiesFingerprint (Dict.ofList sets)
  · rw [Registry.reload_of_fingerprint_eq hskip] at hpolicies ⊢
    have hsets : sets = [] := by
      by_contra hne
      have hempty := Dict.isEmpty_ofList hne
      rw [← hpolicies] at hempty
      cases hempty
    rw [if_pos hsets]
    exact ⟨⟨0, by decide, by decide⟩, rfl, rfl⟩
  · rw [Registry.reload_of_fingerprint_ne hskip]
    have hsets : sets ≠ [] := by
      rintro rfl
      exact hskip Registry.fingerprinted_new
    rw [if_neg hsets]
    exact ⟨⟨1, by decide, by decide⟩, rfl, rfl⟩

/-! ## What is in the way -/

section Faults

variable {error : SchemaError}

theorem singles_ne_nil_of_loadDirectory {compiler : Compiler} {directory : String}
    (h : loadDirectory disk compiler directory = .error error) : error.singles ≠ [] := by
  cases hfiles : disk.list? directory with
  | none =>
      rw [loadDirectory, hfiles] at h
      cases h
      exact List.cons_ne_nil _ _
  | some files =>
      obtain ⟨hall, -⟩ :=
        loadDirectory_all_or_nothing hfiles (schemaListing_schemaFiles files) compiler
      rcases (hall.flat error h).1 with hone | ⟨-, htwo⟩
      · rw [hone]
        exact List.cons_ne_nil _ _
      · exact List.ne_nil_of_length_pos (Nat.lt_of_lt_of_le Nat.zero_lt_two htwo)

theorem report_of_unreadable (hfiles : disk.list? settings.schemas.directory = none)
    (h : report settings disk = .error faults) :
    faults = ["Failed to read schema " ++ settings.schemas.directory] := by
  rw [report, loadDirectory, hfiles] at h
  exact (Except.error.inj h).symm

theorem report_of_listing {files names : List String}
    (hfiles : disk.list? settings.schemas.directory = some files)
    (hnames : SchemaListing files names) (h : report settings disk = .error faults) :
    faults = (objections (loadFile disk settings.compiler)
      (names.map (Path.join settings.schemas.directory))).map SchemaError.message ∧
    (acceptedFiles (loadFile disk settings.compiler)
      (names.map (Path.join settings.schemas.directory))).length + faults.length =
        names.length := by
  obtain ⟨error, hload, rfl⟩ := report_eq_error_iff.mp h
  obtain ⟨hall, -⟩ := loadDirectory_all_or_nothing hfiles hnames settings.compiler
  have hreported := hall.reported
  have hcounted := hall.counted
  rw [hload, reportedErrors] at hreported hcounted
  refine ⟨by rw [hreported], ?_⟩
  rw [List.length_map, hcounted, List.length_map]

end Faults

/-! ## Agreement -/

theorem exists_run_validate_iff : (∃ text, run settings disk .validate = .ok text) ↔
    ∃ lines, report settings disk = .ok lines := by
  rw [run, runValidate]
  cases report settings disk <;> simp

/-- The schemas that validation accepts are those that the other commands load. Where the arguments
of a decision or a filter can be read, these fail for the schemas only if validation does. -/
structure Admits (settings : Settings) (disk : Disk) : Prop where
  validated : (∃ lines, report settings disk = .ok lines) ↔
    ∃ text, run settings disk .validate = .ok text
  loaded : (∃ lines, report settings disk = .ok lines) ↔
    ∃ registry, settings.registry disk = .ok registry
  described : (∃ lines, report settings disk = .ok lines) ↔
    ∃ text, run settings disk (.describe none) = .ok text
  decided : ∀ entity operation principal members record row trace,
    readObject disk .principal principal = .ok members → readRecord disk record = .ok row →
    ((∃ lines, report settings disk = .ok lines) ↔ ∀ directory error,
      run settings disk (.decide entity operation principal record trace) ≠
        .error (.notLoaded directory error))
  filtered : ∀ entity operation principal members records rows,
    readObject disk .principal principal = .ok members → readRecords disk records = .ok rows →
    ((∃ lines, report settings disk = .ok lines) ↔ ∀ directory error,
      run settings disk (.filter entity operation principal records) ≠
        .error (.notLoaded directory error))

theorem admits (settings : Settings) (disk : Disk) : Admits settings disk where
  validated := exists_run_validate_iff.symm
  loaded := exists_report_iff
  described := by rw [exists_report_iff, exists_run_describe_none_iff]
  decided := by
    intro entity operation principal members record row trace hprincipal hrecord
    rw [exists_report_iff, exists_registry_iff]
    simp only [run, decision_eq_map, ne_eq, map_eq_error_iff,
      inquiry_eq_notLoaded_iff hprincipal hrecord]
  filtered := by
    intro entity operation principal members records rows hprincipal hrows
    have hrecord : readRecord disk none = .ok none := rfl
    rw [exists_report_iff, exists_registry_iff]
    simp only [run, accessible_eq_map hrows, ne_eq, map_eq_error_iff,
      inquiry_eq_notLoaded_iff hprincipal hrecord]

/-- Lines about the files of a directory, in the order of their names, and what is shown of their
policies, in the order of the entities. -/
structure Accepted (settings : Settings) (disk : Disk) (lines files names : List String)
    (sets shown : List EntityPolicies) (generation : Json.Integer) : Prop where
  listed : disk.list? settings.schemas.directory = some files
  schemas : SchemaListing files names
  loaded : List.Forall₂ (fun name policies => loadFile disk settings.compiler
    (Path.join settings.schemas.directory name) = .ok policies) names sets
  counted : lines.length = names.length
  told : lines = sets.map fun policies =>
    policies.1 ++ String.ofList (List.replicate (24 - policies.1.length) ' ') ++
      " read: " ++ toString policies.2.read.nodeCount ++
      " nodes, write: " ++ toString policies.2.write.nodeCount ++ " nodes"
  perm : shown.Perm sets
  ordered : (shown.map Prod.fst).Pairwise (· < ·)
  generation_eq : generation.value = if lines = [] then 0 else 1
  described : Describes settings disk none (.number (.integer generation))
    (policiesFingerprint (Dict.ofList sets)) shown
  described_alone : ∀ policies ∈ shown, Describes settings disk (some policies.1)
    (.number (.integer generation)) (policiesFingerprint (Dict.ofList sets)) [policies]
  known : ∀ entity, (∃ text, run settings disk (.describe (some entity)) = .ok text) ↔
    entity ∈ shown.map Prod.fst
  rules : ∀ policies ∈ shown, ∀ place,
    Rule.ofJson? place policies.2.read.toJson.sorted = some policies.2.read ∧
      Rule.ofJson? place policies.2.write.toJson.sorted = some policies.2.write

theorem canonical_of_loadFile {compiler : Compiler} {path : String} {policies : EntityPolicies}
    (h : loadFile disk compiler path = .ok policies) : policies.2.Canonical := by
  obtain ⟨-, read, write, -, -, -, hread, hwrite⟩ := loadFile_eq_ok_iff.mp h
  exact ⟨(compile_eq_ok_iff.mp hread).safe.canonical_literals,
    (compile_eq_ok_iff.mp hwrite).safe.canonical_literals⟩

theorem accepted_of_loadDirectory {sets : List EntityPolicies}
    (hfree : Sha256.CollisionFree (hashedTexts
      [.reloadFrom disk settings.compiler settings.schemas.directory]))
    (hload : loadDirectory disk settings.compiler settings.schemas.directory = .ok sets) :
    ∃ files generation, Accepted settings disk (sets.map entityLine) files (schemaFiles files) sets
      (Dict.ofList sets).entries generation := by
  obtain ⟨files, hfiles, hloads, hnodup⟩ := loadDirectory_eq_ok_iff.mp hload
  have hregistry := registry_eq_ok_iff.mpr ⟨sets, hload, rfl⟩
  have hpolicies := policies_of_registry hfree hload
  have hfingerprint := Registry.fingerprinted_new.reload sets
  have hperm := Dict.perm_ofList hnodup
  obtain ⟨generation, hvalue, hgeneration⟩ := generation_of_registry hpolicies
  rw [Registry.Fingerprinted, hpolicies] at hfingerprint
  refine ⟨files, generation, hfiles, schemaListing_schemaFiles files, hloads, ?_, rfl, hperm,
    (Dict.ofList sets).ordered, ?_, ?_, ?_, ?_, ?_⟩
  · rw [List.length_map, hloads.length_eq]
  · simpa only [List.map_eq_nil_iff] using hvalue
  · simpa only [hgeneration, hfingerprint, hpolicies] using describes_all hregistry
  · intro policies hmem
    have hget := Dict.get?_eq_some_iff.mpr hmem
    rw [← hpolicies] at hget
    simpa only [hgeneration, hfingerprint] using describes_one hregistry hget
  · intro entity
    rw [exists_run_describe_some_iff hregistry, Snapshot.entities, hpolicies, Dict.keys]
  · intro policies hmem place
    obtain ⟨name, -, hfile⟩ := exists_left_of_forall₂ hloads (hperm.mem_iff.mp hmem)
    obtain ⟨hread, hwrite⟩ := canonical_of_loadFile hfile
    exact ⟨Rule.ofJson?_sorted hread, Rule.ofJson?_sorted hwrite⟩

/-- What is in the way of a directory: one line for each schema file that is not accepted, in the
order of their names, or one about a directory that cannot be read. -/
structure Refused (settings : Settings) (disk : Disk) (faults : List String) : Prop where
  ne_nil : faults ≠ []
  failed : ∃ failure, run settings disk .validate = .error failure ∧
    failure.message =
      toString faults.length ++ " schema error(s) in " ++ settings.schemas.directory ∧
    failure.details = faults.map fun fault => "✗ " ++ fault
  unreadable : disk.list? settings.schemas.directory = none →
    faults = ["Failed to read schema " ++ settings.schemas.directory]
  listed : ∀ files names, disk.list? settings.schemas.directory = some files →
    SchemaListing files names →
    faults = (objections (loadFile disk settings.compiler)
      (names.map (Path.join settings.schemas.directory))).map SchemaError.message ∧
    (acceptedFiles (loadFile disk settings.compiler)
      (names.map (Path.join settings.schemas.directory))).length + faults.length = names.length

theorem refused_of_report (h : report settings disk = .error faults) :
    Refused settings disk faults where
  ne_nil := by
    obtain ⟨error, hload, rfl⟩ := report_eq_error_iff.mp h
    rw [ne_eq, List.map_eq_nil_iff]
    exact singles_ne_nil_of_loadDirectory hload
  failed := by
    refine ⟨.invalidSchemas _ faults, ?_, rfl, rfl⟩
    rw [run, runValidate]
    simp only [h]
  unreadable := fun hfiles => report_of_unreadable hfiles h
  listed := fun _ _ hfiles hnames => report_of_listing hfiles hnames h

/-- Validation accepts the schemas exactly when the other commands can load them. It has a line for
each schema file, about an entity that is described with the rules counted there, and other names
are not known. Otherwise it has one line for each schema file that is not accepted, in the order of
their names, or one about a directory that cannot be read. -/
theorem report_agrees_with_commands (settings : Settings) (disk : Disk)
    (hfree : Sha256.CollisionFree (hashedTexts
      [.reloadFrom disk settings.compiler settings.schemas.directory])) :
    Admits settings disk ∧
    (∀ lines, report settings disk = .ok lines → ∃ files names sets shown generation,
      Accepted settings disk lines files names sets shown generation) ∧
    ∀ faults, report settings disk = .error faults → Refused settings disk faults := by
  refine ⟨admits settings disk, ?_, fun _ => refused_of_report⟩
  intro lines hlines
  obtain ⟨sets, hload, rfl⟩ := report_eq_ok_iff.mp hlines
  obtain ⟨files, generation, haccepted⟩ := accepted_of_loadDirectory hfree hload
  exact ⟨files, _, sets, _, generation, haccepted⟩

/-- Two schema files, the first of which names the entity that is last in order. -/
def teamsAndPosts : Disk := Disk.ofList
  [("schemas", .directory ["b.json", "a.json"]),
    ("schemas/a.json", .file
      "\x7b\"name\":\"team\",\"rls\":\x7b\"read\":\x7b\x7d,\"write\":\x7b\x7d\x7d\x7d".toUTF8),
    ("schemas/b.json", .file
      "\x7b\"name\":\"post\",\"rls\":\x7b\"read\":\x7b\x7d,\"write\":\x7b\"$or\":[\x7b\"public\":true\x7d,\x7b\"owner\":1\x7d]\x7d\x7d\x7d".toUTF8)]

theorem schemaListing_teamsAndPosts : SchemaListing ["b.json", "a.json"] ["a.json", "b.json"] :=
  ⟨by decide +kernel, by decide +kernel⟩

theorem loadDirectory_teamsAndPosts : loadDirectory teamsAndPosts tracedSchemas.compiler "schemas" =
    (Loading.examine (loadFile teamsAndPosts tracedSchemas.compiler)
      ["schemas/a.json", "schemas/b.json"]).finish :=
  loadDirectory_eq_examine rfl schemaListing_teamsAndPosts _

theorem entities_teamsAndPosts {files names : List String} {lines : List String}
    {sets shown : List EntityPolicies} {generation : Json.Integer}
    (h : Accepted tracedSchemas teamsAndPosts lines files names sets shown generation) :
    shown.map Prod.fst = ["post", "team"] := by
  have hteam : (loadFile teamsAndPosts tracedSchemas.compiler "schemas/a.json").toOption.map
      Prod.fst = some "team" := by
    decide +kernel
  have hpost : (loadFile teamsAndPosts tracedSchemas.compiler "schemas/b.json").toOption.map
      Prod.fst = some "post" := by
    decide +kernel
  obtain rfl : ["b.json", "a.json"] = files := Option.some.inj h.listed
  obtain rfl := h.schemas.unique schemaListing_teamsAndPosts
  obtain ⟨team, _, hteamLoads, hposts, rfl⟩ := List.forall₂_cons_left_iff.mp h.loaded
  obtain ⟨post, _, hpostLoads, hnone, rfl⟩ := List.forall₂_cons_left_iff.mp hposts
  obtain rfl := List.forall₂_nil_left_iff.mp hnone
  have hteamPath : Path.join tracedSchemas.schemas.directory "a.json" = "schemas/a.json" := rfl
  have hpostPath : Path.join tracedSchemas.schemas.directory "b.json" = "schemas/b.json" := rfl
  rw [hteamPath] at hteamLoads
  rw [hpostPath] at hpostLoads
  rw [hteamLoads] at hteam
  rw [hpostLoads] at hpost
  have hperm : (shown.map Prod.fst).Perm ["post", "team"] := by
    rw [← Option.some.inj hteam, ← Option.some.inj hpost]
    exact (h.perm.map Prod.fst).trans (.swap _ _ [])
  apply List.Perm.eq_of_pairwise' (h.ordered.imp le_of_lt) ?_ hperm
  decide +kernel

def absentSchemas : Settings := { schemas := { directory := "absent" } }

theorem report_agrees_with_commands_teamsAndPosts :
    (∃ files names sets shown generation, Accepted tracedSchemas teamsAndPosts
        ["team                     read: 1 nodes, write: 1 nodes",
          "post                     read: 1 nodes, write: 3 nodes"] files names sets shown generation ∧
      shown.map Prod.fst = ["post", "team"] ∧ generation.value = 1) ∧
    ∃ failure, run absentSchemas teamsAndPosts .validate = .error failure ∧
      failure.message = "1 schema error(s) in absent" ∧
      failure.details = ["✗ Failed to read schema absent"] := by
  constructor
  · have hfree : Sha256.CollisionFree (hashedTexts [.reloadFrom teamsAndPosts
        tracedSchemas.compiler "schemas"]) := by
      rw [hashedTexts, Registry.runTexts, Registry.stepTexts, loadDirectory_teamsAndPosts]
      decide +kernel
    have hoption : (report tracedSchemas teamsAndPosts).toOption =
        some ["team                     read: 1 nodes, write: 1 nodes",
          "post                     read: 1 nodes, write: 3 nodes"] := by
      have hload : loadDirectory teamsAndPosts tracedSchemas.compiler
          tracedSchemas.schemas.directory = _ := loadDirectory_teamsAndPosts
      rw [report, hload]
      decide +kernel
    obtain ⟨-, haccepted, -⟩ := report_agrees_with_commands tracedSchemas teamsAndPosts hfree
    cases hlines : report tracedSchemas teamsAndPosts with
    | error faults =>
        rw [hlines] at hoption
        cases hoption
    | ok lines =>
        rw [hlines] at hoption
        obtain rfl := Option.some.inj hoption
        obtain ⟨files, names, sets, shown, generation, h⟩ := haccepted _ hlines
        exact ⟨files, names, sets, shown, generation, h, entities_teamsAndPosts h, h.generation_eq⟩
  · have hfree : Sha256.CollisionFree (hashedTexts [.reloadFrom teamsAndPosts
        absentSchemas.compiler absentSchemas.schemas.directory]) := by
      decide +kernel
    obtain ⟨-, -, hrefused⟩ := report_agrees_with_commands absentSchemas teamsAndPosts hfree
    exact (hrefused _ rfl).failed

end Command

end RowPolicy
