import RowPolicy.Proofs.CompiledForm
import RowPolicy.Proofs.Pairing
import RowPolicy.Schema.Loading

/-!
# Directories that load

A schema file loads when its document names an entity and declares two rules that compile. A
directory loads when each of its schema files does and no two of them name one entity; what it gives
are then the policies of the files, one after the other.
-/

namespace RowPolicy

/-! ## One file -/

namespace SchemaDocument

/-- A document names an entity by its declared name or, where that is missing or empty, by the stem
of its path. -/
def Names (document : SchemaDocument) (path entity : String) : Prop :=
  (document.name = some entity ∧ entity ≠ "") ∨
    ((document.name = none ∨ document.name = some "") ∧ Path.stem? path = some entity)

theorem entityName_eq_ok_iff {document : SchemaDocument} {path entity : String} :
    document.entityName path = .ok entity ↔ document.Names path entity := by
  rw [entityName, Names]
  cases document.name with
  | none =>
      rw [Option.filter_none]
      cases Path.stem? path with
      | none => simp
      | some stem => simp
  | some name =>
      by_cases hname : name = ""
      · have hdropped : (some name).filter (· != "") = none := by simp [hname]
        rw [hdropped]
        cases Path.stem? path with
        | none => simp [hname]
        | some stem => simp [hname]
      · have hkept : (some name).filter (· != "") = some name := by simp [hname]
        rw [hkept]
        simp only [Except.ok.injEq, Option.some.injEq, reduceCtorEq, hname, or_self, false_and,
          or_false, iff_self_and]
        rintro rfl
        exact hname

def Declares (document : SchemaDocument) (read write : Json) : Prop :=
  document.rules = some ⟨some read, some write⟩

end SchemaDocument

theorem SchemaDocument.compile_eq_ok_iff {document : SchemaDocument} {entity : String}
    {compiler : Compiler} {set : PolicySet} :
    document.compile entity compiler = .ok set ↔ ∃ read write, document.Declares read write ∧
      compiler.compile read = .ok set.read ∧ compiler.compile write = .ok set.write := by
  rw [compile]
  simp only [Declares]
  match document.rules with
  | none => simp
  | some ⟨none, _⟩ => simp
  | some ⟨some read, none⟩ => simp
  | some ⟨some read, some write⟩ =>
      simp only [Compiler.compileEntity]
      rw [mapError_eq_ok_iff, Compiler.compileSet_eq_ok_iff]
      simp

def FileNames (disk : Disk) (path entity : String) : Prop :=
  ∃ document, readSchema disk path = .ok document ∧ document.Names path entity

theorem FileNames.unique {disk : Disk} {path entity entity' : String}
    (h : FileNames disk path entity) (h' : FileNames disk path entity') : entity = entity' := by
  obtain ⟨document, hread, hnames⟩ := h
  obtain ⟨document', hread', hnames'⟩ := h'
  obtain rfl : document = document' := Except.ok.inj (hread.symm.trans hread')
  rw [← SchemaDocument.entityName_eq_ok_iff] at hnames hnames'
  exact Except.ok.inj (hnames.symm.trans hnames')

theorem loadFile_eq_ok_iff {disk : Disk} {compiler : Compiler} {path entity : String}
    {set : PolicySet} :
    loadFile disk compiler path = .ok (entity, set) ↔
      ∃ document read write, readSchema disk path = .ok document ∧ document.Names path entity ∧
        document.Declares read write ∧ compiler.compile read = .ok set.read ∧
        compiler.compile write = .ok set.write := by
  constructor
  · intro h
    rw [loadFile] at h
    cases hread : readSchema disk path with
    | error error => simp [hread] at h
    | ok document =>
        cases hname : document.entityName path with
        | error error => simp [hread, hname] at h
        | ok entity' =>
            cases hcompile : document.compile entity' compiler with
            | error error => simp [hread, hname, hcompile] at h
            | ok set' =>
                simp only [hread, hname, hcompile, Except.ok.injEq, Prod.mk.injEq] at h
                obtain ⟨rfl, rfl⟩ := h
                obtain ⟨read, write, hdeclares, hrules⟩ :=
                  SchemaDocument.compile_eq_ok_iff.mp hcompile
                have hnames := SchemaDocument.entityName_eq_ok_iff.mp hname
                exact ⟨document, read, write, rfl, hnames, hdeclares, hrules⟩
  · rintro ⟨document, read, write, hread, hnames, hdeclares, hrules⟩
    have hname := SchemaDocument.entityName_eq_ok_iff.mpr hnames
    have hcompile : document.compile entity compiler = .ok set :=
      SchemaDocument.compile_eq_ok_iff.mpr ⟨read, write, hdeclares, hrules⟩
    rw [loadFile, hread]
    simp only [hname, hcompile]

theorem fileNames_of_loadFile {disk : Disk} {compiler : Compiler} {path : String}
    {policies : EntityPolicies} (h : loadFile disk compiler path = .ok policies) :
    FileNames disk path policies.1 := by
  obtain ⟨document, -, -, hread, hnames, -⟩ := loadFile_eq_ok_iff.mp h
  exact ⟨document, hread, hnames⟩

/-! ## One file after the other -/

namespace Loading

variable {loading : Loading}

def sets (loading : Loading) : List EntityPolicies := (loading.loaded.map Prod.fst).reverse

theorem finish_eq_ok_iff {sets : List EntityPolicies} :
    loading.finish = .ok sets ↔ loading.errors = [] ∧ loading.sets = sets := by
  rw [finish, Loading.sets]
  match loading.errors with
  | [] => simp
  | [error] => simp
  | error :: error' :: errors => simp

theorem origin?_eq_none_iff {entity : String} :
    loading.origin? entity = none ↔ ∀ earlier ∈ loading.sets, earlier.1 ≠ entity := by
  simp [origin?, sets]

theorem add_errors_eq_nil_iff {path : String} {outcome : Except SchemaError EntityPolicies} :
    (loading.add path outcome).errors = [] ↔ loading.errors = [] ∧ ∃ policies,
      outcome = .ok policies ∧ ∀ earlier ∈ loading.sets, earlier.1 ≠ policies.1 := by
  cases outcome with
  | error error => simp [add, refuse]
  | ok policies =>
      simp only [add, Except.ok.injEq, exists_eq_left', ← origin?_eq_none_iff]
      cases loading.origin? policies.1 with
      | none => simp
      | some first => simp [refuse]

theorem add_sets {path : String} {policies : EntityPolicies}
    (h : ∀ earlier ∈ loading.sets, earlier.1 ≠ policies.1) :
    (loading.add path (.ok policies)).sets = loading.sets ++ [policies] := by
  have horigin := origin?_eq_none_iff.mpr h
  simp [add, horigin, sets]

variable {place : String → String} {load : String → Except SchemaError EntityPolicies}

/-- Names that load in turn add their policies, which are of entities that are all new. The
induction is on the names still to be loaded. -/
theorem foldl_add_iff {names : List String} {sets : List EntityPolicies} :
    (names.foldl (fun loading name => loading.add (place name) (load name)) loading).errors = [] ∧
      (names.foldl (fun loading name => loading.add (place name) (load name)) loading).sets = sets ↔
    loading.errors = [] ∧ ∃ more, sets = loading.sets ++ more ∧
      List.Forall₂ (fun name policies => load name = .ok policies) names more ∧
      (∀ policies ∈ more, ∀ earlier ∈ loading.sets, earlier.1 ≠ policies.1) ∧
      (more.map Prod.fst).Nodup := by
  induction names generalizing loading with
  | nil =>
      simp only [List.foldl_nil, List.forall₂_nil_left_iff]
      constructor
      · rintro ⟨herrors, rfl⟩
        exact ⟨herrors, [], by simp⟩
      · rintro ⟨herrors, more, rfl, rfl, -⟩
        exact ⟨herrors, by simp⟩
  | cons name names ih =>
      rw [List.foldl_cons, ih, add_errors_eq_nil_iff]
      constructor
      · rintro ⟨⟨herrors, policies, hload, hfresh⟩, more, rfl, hmore, hnew, hnodup⟩
        rw [hload, add_sets hfresh] at hnew ⊢
        refine ⟨herrors, policies :: more, by simp, .cons hload hmore, ?_, ?_⟩
        · rw [List.forall_mem_cons]
          refine ⟨hfresh, ?_⟩
          intro policies' hmem earlier hearlier
          exact hnew policies' hmem earlier (List.mem_append_left _ hearlier)
        · rw [List.map_cons, List.nodup_cons]
          refine ⟨?_, hnodup⟩
          intro hmem
          obtain ⟨policies', hmem', heq⟩ := List.mem_map.mp hmem
          exact hnew policies' hmem' policies List.mem_concat_self heq.symm
      · rintro ⟨herrors, all, rfl, hall, hnew, hnodup⟩
        obtain ⟨policies, more, hload, hmore, rfl⟩ := List.forall₂_cons_left_iff.mp hall
        rw [List.forall_mem_cons] at hnew
        rw [List.map_cons, List.nodup_cons] at hnodup
        refine ⟨⟨herrors, policies, hload, hnew.1⟩, more, ?_, hmore, ?_, hnodup.2⟩
        · rw [hload, add_sets hnew.1, List.append_assoc, List.singleton_append]
        · rw [hload, add_sets hnew.1]
          intro policies' hmem earlier hearlier
          rcases List.mem_append.mp hearlier with hearlier | hlast
          · exact hnew.2 policies' hmem earlier hearlier
          · obtain rfl := List.mem_singleton.mp hlast
            intro heq
            exact hnodup.1 (List.mem_map.mpr ⟨policies', hmem, heq.symm⟩)

theorem finish_foldl_eq_ok_iff {names : List String} {sets : List EntityPolicies} :
    (names.foldl (fun loading name => Loading.add loading (place name) (load name)) {}).finish =
        .ok sets ↔
      List.Forall₂ (fun name policies => load name = .ok policies) names sets ∧
        (sets.map Prod.fst).Nodup := by
  rw [finish_eq_ok_iff, foldl_add_iff]
  constructor
  · rintro ⟨-, more, rfl, hmore, -, hnodup⟩
    exact ⟨hmore, hnodup⟩
  · rintro ⟨hmore, hnodup⟩
    exact ⟨rfl, sets, rfl, hmore, by simp [Loading.sets], hnodup⟩

end Loading

/-! ## A directory -/

theorem isSchemaFile_eq (name : String) : SchemaFormat.isSchemaFile name =
    (Path.extension? name).any fun extension =>
      ["json", "yaml", "yml"].contains (asciiLower extension) := by
  rw [SchemaFormat.isSchemaFile, SchemaFormat.isYaml, SchemaFormat.extension?]
  cases Path.extension? name with
  | none => rfl
  | some extension =>
      rw [Bool.eq_iff_iff]
      simp

theorem mem_schemaFiles {files : List String} {name : String} :
    name ∈ schemaFiles files ↔ name ∈ files ∧ SchemaFormat.isSchemaFile name = true := by
  rw [schemaFiles, List.mem_mergeSort, List.mem_filter]

theorem loadDirectory_eq_ok_iff {disk : Disk} {compiler : Compiler} {directory : String}
    {sets : List EntityPolicies} :
    loadDirectory disk compiler directory = .ok sets ↔ ∃ files,
      disk.list? directory = some files ∧
      List.Forall₂ (fun name policies =>
        loadFile disk compiler (Path.join directory name) = .ok policies) (schemaFiles files) sets ∧
      (sets.map Prod.fst).Nodup := by
  rw [loadDirectory]
  cases disk.list? directory with
  | none => simp
  | some files => simp only [Loading.finish_foldl_eq_ok_iff, Option.some.injEq, exists_eq_left']

/-- A schema file of a directory, by its extension, names an entity. -/
def DirectoryNames (disk : Disk) (directory name entity : String) : Prop :=
  (∃ files, disk.list? directory = some files ∧ name ∈ files) ∧
    ((Path.extension? name).any fun extension =>
      ["json", "yaml", "yml"].contains (asciiLower extension)) = true ∧
    FileNames disk (Path.join directory name) entity

section Loaded

variable {disk : Disk} {compiler : Compiler} {directory name entity : String}
  {sets : List EntityPolicies}

theorem directoryNames_iff {files : List String} (hfiles : disk.list? directory = some files) :
    DirectoryNames disk directory name entity ↔
      name ∈ schemaFiles files ∧ FileNames disk (Path.join directory name) entity := by
  rw [DirectoryNames, hfiles, mem_schemaFiles, isSchemaFile_eq]
  simp [and_assoc]

/-- What a loaded directory gives an entity comes from a schema file that names it. -/
theorem exists_file_of_mem (h : loadDirectory disk compiler directory = .ok sets)
    {set : PolicySet} (hmem : (entity, set) ∈ sets) :
    ∃ name, DirectoryNames disk directory name entity := by
  obtain ⟨files, hfiles, hloads, -⟩ := loadDirectory_eq_ok_iff.mp h
  obtain ⟨name, hname, hload⟩ := exists_left_of_forall₂ hloads hmem
  exact ⟨name, (directoryNames_iff hfiles).mpr ⟨hname, fileNames_of_loadFile hload⟩⟩

/-- No schema file of a loaded directory is left out. -/
theorem exists_mem_of_file (h : loadDirectory disk compiler directory = .ok sets)
    (hnames : DirectoryNames disk directory name entity) :
    ∃ set, (entity, set) ∈ sets ∧
      loadFile disk compiler (Path.join directory name) = .ok (entity, set) := by
  obtain ⟨files, hfiles, hloads, -⟩ := loadDirectory_eq_ok_iff.mp h
  obtain ⟨hname, hfile⟩ := (directoryNames_iff hfiles).mp hnames
  obtain ⟨⟨entity', set⟩, hmem, hload⟩ := exists_right_of_forall₂ hloads hname
  obtain rfl : entity = entity' := hfile.unique (fileNames_of_loadFile hload)
  exact ⟨set, hmem, hload⟩

/-- No two schema files of a loaded directory name one entity. -/
theorem file_unique (h : loadDirectory disk compiler directory = .ok sets) {name' : String}
    (hnames : DirectoryNames disk directory name entity)
    (hnames' : DirectoryNames disk directory name' entity) : name = name' := by
  obtain ⟨files, hfiles, hloads, hnodup⟩ := loadDirectory_eq_ok_iff.mp h
  obtain ⟨hname, hfile⟩ := (directoryNames_iff hfiles).mp hnames
  obtain ⟨hname', hfile'⟩ := (directoryNames_iff hfiles).mp hnames'
  apply eq_of_forall₂_of_nodup hloads hnodup hname hname'
  intro policies policies' hload hload'
  have hfirst := hfile.unique (fileNames_of_loadFile hload)
  have hsecond := hfile'.unique (fileNames_of_loadFile hload')
  rw [← hfirst, hsecond]

theorem nodup_of_loadDirectory (h : loadDirectory disk compiler directory = .ok sets) :
    (sets.map Prod.fst).Nodup := by
  obtain ⟨-, -, -, hnodup⟩ := loadDirectory_eq_ok_iff.mp h
  exact hnodup

theorem existsUnique_file_iff (h : loadDirectory disk compiler directory = .ok sets) :
    (∃! name, DirectoryNames disk directory name entity) ↔ ∃ set, (entity, set) ∈ sets := by
  constructor
  · rintro ⟨name, hnames, -⟩
    obtain ⟨set, hmem, -⟩ := exists_mem_of_file h hnames
    exact ⟨set, hmem⟩
  · rintro ⟨set, hmem⟩
    obtain ⟨name, hnames⟩ := exists_file_of_mem h hmem
    exact ⟨name, hnames, fun name' hnames' => file_unique h hnames' hnames⟩

end Loaded

end RowPolicy
