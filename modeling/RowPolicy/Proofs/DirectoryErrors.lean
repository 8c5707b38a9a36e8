import RowPolicy.Proofs.EntityFaults
import Mathlib.Data.List.Induction
import Mathlib.Data.List.Sort

/-!
# Errors of a directory

A directory is loaded as a whole or not at all. Where it is not, each of its schema files that
cannot be accepted has one error in the report: the error of loading it, or the earliest file before
it that loaded its entity. What is reported does not depend on the order in which the files are
listed.
-/

namespace RowPolicy

/-! ## Single errors -/

namespace SchemaError

/-- An error that collects no others. -/
def IsSingle : SchemaError → Prop
  | .several _ => False
  | _ => True

/-- An error that one file has by itself. -/
def IsOwn : SchemaError → Prop
  | .several _ | .duplicate .. => False
  | _ => True

variable {error : SchemaError} {errors : List SchemaError}

theorem IsOwn.isSingle (h : error.IsOwn) : error.IsSingle := by
  cases error with
  | several errors => exact h.elim
  | _ => exact trivial

theorem singles_eq_singleton (h : error.IsSingle) : error.singles = [error] := by
  cases error with
  | several errors => exact h.elim
  | _ => rfl

theorem allSingles_eq_self (h : ∀ error ∈ errors, error.IsSingle) : allSingles errors = errors := by
  induction errors with
  | nil => rfl
  | cons error errors ih =>
      obtain ⟨hfirst, hrest⟩ := List.forall_mem_cons.mp h
      rw [allSingles, singles_eq_singleton hfirst, ih hrest, List.singleton_append]

end SchemaError

def reportedErrors : Except SchemaError (List EntityPolicies) → List SchemaError
  | .ok _ => []
  | .error error => error.singles

section OwnErrors

variable {disk : Disk} {compiler : Compiler} {document : SchemaDocument} {path entity : String}
  {error : SchemaError}

theorem isOwn_of_readSchema (h : readSchema disk path = .error error) : error.IsOwn := by
  rw [readSchema] at h
  split at h
  · cases h
    exact trivial
  · dsimp only at h
    split at h
    · cases h
    · cases h
      exact trivial

theorem isOwn_of_entityName (h : document.entityName path = .error error) : error.IsOwn := by
  rw [SchemaDocument.entityName] at h
  split at h
  · cases h
  · split at h
    · cases h
    · cases h
      exact trivial

theorem isOwn_of_compile (h : document.compile entity compiler = .error error) : error.IsOwn := by
  cases SchemaDocument.compile_eq_error_iff.mp h <;> exact trivial

theorem isOwn_of_loadFile (h : loadFile disk compiler path = .error error) : error.IsOwn := by
  rw [loadFile] at h
  split at h
  · next hread =>
    cases h
    exact isOwn_of_readSchema hread
  · split at h
    · next hname =>
      cases h
      exact isOwn_of_entityName hname
    · split at h
      · next hcompile =>
        cases h
        exact isOwn_of_compile hcompile
      · cases h

end OwnErrors

/-! ## Objections -/

def withEarlier (paths : List String) : List (String × List String) :=
  paths.zipIdx.map fun (path, index) => (path, paths.take index)

theorem withEarlier_append_singleton (paths : List String) (path : String) :
    withEarlier (paths ++ [path]) = withEarlier paths ++ [(path, paths)] := by
  rw [withEarlier, List.zipIdx_append, List.map_append]
  congr 1
  · apply List.map_congr_left
    rintro ⟨other, index⟩ hentry
    have hlt : index < paths.length := List.snd_lt_of_mem_zipIdx hentry
    simp only [List.take_append_of_le_length hlt.le]
  · simp

theorem exists_split_of_mem_withEarlier {paths earlier : List String} {path : String}
    (h : (path, earlier) ∈ withEarlier paths) : ∃ later, paths = earlier ++ path :: later := by
  induction paths using List.reverseRecOn with
  | nil => cases h
  | append_singleton paths last ih =>
      rw [withEarlier_append_singleton] at h
      rcases List.mem_append.mp h with h | h
      · obtain ⟨later, hsplit⟩ := ih h
        exact ⟨later ++ [last], by rw [hsplit, List.append_assoc, List.cons_append]⟩
      · cases List.mem_singleton.mp h
        exact ⟨[], rfl⟩

section Objections

variable (load : String → Except SchemaError EntityPolicies)

/-- Whether the file at a path loads, and gives the policies of an entity. -/
def loadsAs (entity path : String) : Bool :=
  match load path with
  | .ok policies => policies.1 == entity
  | .error _ => false

/-- What there is against the file at a path, given the files before it. -/
def objection? (path : String) (earlier : List String) : Option SchemaError :=
  match load path with
  | .error error => some error
  | .ok policies =>
    (earlier.find? (loadsAs load policies.1)).map fun first => .duplicate policies.1 first path

def objections (paths : List String) : List SchemaError :=
  (withEarlier paths).filterMap fun (path, earlier) => objection? load path earlier

/-- The files that there is nothing against. -/
def acceptedFiles (paths : List String) : List String :=
  ((withEarlier paths).filter fun (path, earlier) => (objection? load path earlier).isNone).map
    Prod.fst

variable {load} {paths : List String} {path entity : String} {error : SchemaError}

theorem loadsAs_eq_true_iff :
    loadsAs load entity path = true ↔ ∃ set, load path = .ok (entity, set) := by
  rw [loadsAs]
  cases load path with
  | error error => simp
  | ok policies =>
      obtain ⟨entity', set⟩ := policies
      simp

theorem mem_objections_iff : error ∈ objections load paths ↔
    ∃ path earlier, (path, earlier) ∈ withEarlier paths ∧
      objection? load path earlier = some error := by
  rw [objections, List.mem_filterMap, Prod.exists]

theorem objections_append_singleton :
    objections load (paths ++ [path]) =
      objections load paths ++ (objection? load path paths).toList := by
  rw [objections, withEarlier_append_singleton, List.filterMap_append]
  cases hobjection : objection? load path paths with
  | none => simp [objections, hobjection]
  | some error => simp [objections, hobjection]

theorem length_acceptedFiles_add_length_objections (paths : List String) :
    (acceptedFiles load paths).length + (objections load paths).length = paths.length := by
  induction paths using List.reverseRecOn with
  | nil => rfl
  | append_singleton paths path ih =>
      rw [objections_append_singleton, acceptedFiles, withEarlier_append_singleton,
        List.filter_append, List.map_append, List.length_append, List.length_append,
        List.length_append, ← ih, ← acceptedFiles]
      cases hobjection : objection? load path paths with
      | none =>
          simp [hobjection]
          omega
      | some error =>
          simp [hobjection]
          omega

theorem duplicate_of_objection? {earlier : List String} {first second : String}
    (hown : ∀ path error, load path = .error error → error.IsOwn)
    (h : objection? load path earlier = some (.duplicate entity first second)) :
    second = path ∧ loadsAs load entity path = true ∧ ∃ before after,
      earlier = before ++ first :: after ∧ loadsAs load entity first = true ∧
        ∀ other ∈ before, loadsAs load entity other = false := by
  rw [objection?] at h
  cases hload : load path with
  | error error =>
      rw [hload] at h
      cases h
      exact (hown path _ hload).elim
  | ok policies =>
      rw [hload] at h
      obtain ⟨first', hfind, heq⟩ := Option.map_eq_some_iff.mp h
      cases heq
      obtain ⟨hfirst, before, after, hsplit, hbefore⟩ := List.find?_eq_some_iff_append.mp hfind
      have hpath : loadsAs load policies.1 path = true :=
        loadsAs_eq_true_iff.mpr ⟨policies.2, hload⟩
      refine ⟨rfl, hpath, before, after, hsplit, hfirst, ?_⟩
      intro other hother
      simpa using hbefore other hother

/-! ## The loop -/

namespace Loading

variable {loading : Loading}

theorem add_of_none {policies : EntityPolicies} (h : loading.origin? policies.1 = none) :
    loading.add path (.ok policies) = ⟨(policies, path) :: loading.loaded, loading.errors⟩ := by
  simp only [add, h]

theorem add_of_some {policies : EntityPolicies} {first : String}
    (h : loading.origin? policies.1 = some first) :
    loading.add path (.ok policies) = loading.refuse (.duplicate policies.1 first path) := by
  simp only [add, h]

theorem errors_add_ok (path : String) (policies : EntityPolicies) :
    (loading.add path (.ok policies)).errors.reverse = loading.errors.reverse ++
      ((loading.origin? policies.1).map fun first =>
        SchemaError.duplicate policies.1 first path).toList := by
  cases horigin : loading.origin? policies.1 with
  | none => simp [add_of_none horigin]
  | some first => simp [add_of_some horigin, refuse]

@[simp] theorem origin?_refuse : (loading.refuse error).origin? entity = loading.origin? entity := rfl

theorem origin?_add_ok (path entity : String) (policies : EntityPolicies) :
    (loading.add path (.ok policies)).origin? entity =
      (loading.origin? entity).or (if policies.1 == entity then some path else none) := by
  cases horigin : loading.origin? policies.1 with
  | none =>
      rw [add_of_none horigin, origin?, List.find?_cons]
      by_cases heq : policies.1 = entity
      · subst heq
        simp [horigin]
      · simp [beq_false_of_ne heq, origin?]
  | some first =>
      rw [add_of_some horigin, origin?_refuse]
      by_cases heq : policies.1 = entity
      · subst heq
        simp [horigin]
      · simp [heq]

end Loading

/-- The loop over the files at some paths. -/
def Loading.examine (load : String → Except SchemaError EntityPolicies) (paths : List String) :
    Loading :=
  paths.foldl (fun loading path => loading.add path (load path)) {}

/-- What the loop over the files knows after some of them: what there is against these, and the
first one that loaded an entity. -/
structure Loading.Examined (load : String → Except SchemaError EntityPolicies)
    (paths : List String) (loading : Loading) : Prop where
  errors : loading.errors.reverse = objections load paths
  origin : ∀ entity, loading.origin? entity = paths.find? (loadsAs load entity)

namespace Loading.Examined

variable {loading : Loading}

theorem initial : Examined load [] {} := ⟨rfl, fun _ => rfl⟩

theorem add (h : Examined load paths loading) (path : String) :
    Examined load (paths ++ [path]) (loading.add path (load path)) := by
  refine ⟨?_, ?_⟩
  · -- The files before this one are those that the invariant is about.
    rw [objections_append_singleton, objection?, ← h.errors]
    cases load path with
    | error error => simp [Loading.add, refuse]
    | ok policies => simp only [errors_add_ok, h.origin]
  · intro entity
    rw [List.find?_append, List.find?_singleton, loadsAs, ← h.origin]
    cases load path with
    | error error => simp [Loading.add]
    | ok policies => exact origin?_add_ok path entity policies

theorem examine (paths : List String) : Examined load paths (Loading.examine load paths) := by
  induction paths using List.reverseRecOn with
  | nil => exact initial
  | append_singleton paths path ih =>
      rw [Loading.examine, List.foldl_append]
      exact ih.add path

end Loading.Examined

/-- The report of a loop that met errors is its only error, or collects all of them. -/
theorem Loading.finish_eq_error {loading : Loading} (h : loading.finish = .error error) :
    loading.errors.reverse = [error] ∨
      error = .several loading.errors.reverse ∧ 2 ≤ loading.errors.reverse.length := by
  rw [finish] at h
  cases herrors : loading.errors with
  | nil => simp [herrors] at h
  | cons first others =>
      cases others with
      | nil =>
          simp only [herrors, Except.error.injEq] at h
          exact Or.inl (by rw [h, List.reverse_singleton])
      | cons second rest =>
          simp only [herrors, Except.error.injEq] at h
          refine Or.inr ⟨h.symm, ?_⟩
          rw [List.length_reverse, List.length_cons, List.length_cons]
          omega

theorem isSingle_of_mem_objections (hown : ∀ path error, load path = .error error → error.IsOwn)
    (h : error ∈ objections load paths) : error.IsSingle := by
  obtain ⟨path, earlier, -, hobjection⟩ := mem_objections_iff.mp h
  rw [objection?] at hobjection
  cases hload : load path with
  | error error' =>
      rw [hload] at hobjection
      cases hobjection
      exact (hown path _ hload).isSingle
  | ok policies =>
      rw [hload] at hobjection
      obtain ⟨first, -, rfl⟩ := Option.map_eq_some_iff.mp hobjection
      exact trivial

/-- All or nothing: what loading some files, one after the other, has to give. -/
structure AllOrNothing (load : String → Except SchemaError EntityPolicies) (paths : List String)
    (outcome : Except SchemaError (List EntityPolicies)) : Prop where
  loaded : ∀ sets, outcome = .ok sets ↔
    List.Forall₂ (fun path policies => load path = .ok policies) paths sets ∧
      (sets.map Prod.fst).Nodup
  reported : reportedErrors outcome = objections load paths
  flat : ∀ error, outcome = .error error →
    (error.singles = [error] ∨ error = .several error.singles ∧ 2 ≤ error.singles.length) ∧
      ∀ single ∈ error.singles, single.IsSingle
  counted : (acceptedFiles load paths).length + (reportedErrors outcome).length = paths.length
  duplicates : ∀ entity first second, .duplicate entity first second ∈ reportedErrors outcome →
    ∃ before between after, paths = before ++ first :: between ++ second :: after ∧
      loadsAs load entity first = true ∧ loadsAs load entity second = true ∧
      ∀ other ∈ before, loadsAs load entity other = false

theorem exists_split_of_duplicate_mem {first second : String}
    (hown : ∀ path error, load path = .error error → error.IsOwn)
    (h : .duplicate entity first second ∈ objections load paths) :
    ∃ before between after, paths = before ++ first :: between ++ second :: after ∧
      loadsAs load entity first = true ∧ loadsAs load entity second = true ∧
      ∀ other ∈ before, loadsAs load entity other = false := by
  obtain ⟨path, earlier, hmem, hobjection⟩ := mem_objections_iff.mp h
  obtain ⟨rfl, hpath, before, between, rfl, hfirst, hbefore⟩ :=
    duplicate_of_objection? hown hobjection
  obtain ⟨after, hsplit⟩ := exists_split_of_mem_withEarlier hmem
  exact ⟨before, between, after, hsplit, hfirst, hpath, hbefore⟩

section Report

variable (hown : ∀ path error, load path = .error error → error.IsOwn)
include hown

theorem Loading.Examined.singles_eq {loading : Loading} (h : loading.Examined load paths)
    (herror : loading.finish = .error error) : error.singles = objections load paths := by
  have hsingle : ∀ single ∈ loading.errors.reverse, single.IsSingle := by
    rw [h.errors]
    exact fun _ => isSingle_of_mem_objections hown
  rw [← h.errors]
  rcases Loading.finish_eq_error herror with honly | ⟨rfl, -⟩
  · have hmem : error ∈ loading.errors.reverse := by
      rw [honly]
      exact List.mem_singleton_self error
    rw [honly, SchemaError.singles_eq_singleton (hsingle error hmem)]
  · exact SchemaError.allSingles_eq_self hsingle

theorem Loading.Examined.reportedErrors_eq {loading : Loading} (h : loading.Examined load paths) :
    reportedErrors loading.finish = objections load paths := by
  cases hfinish : loading.finish with
  | ok sets =>
      obtain ⟨herrors, -⟩ := Loading.finish_eq_ok_iff.mp hfinish
      rw [← h.errors, herrors]
      rfl
  | error error => exact h.singles_eq hown hfinish

theorem allOrNothing_examine (paths : List String) :
    AllOrNothing load paths (Loading.examine load paths).finish := by
  have hexamined : Loading.Examined load paths _ := .examine paths
  have hreported := hexamined.reportedErrors_eq hown
  refine ⟨fun sets => Loading.finish_foldl_eq_ok_iff, hreported, ?_, ?_, ?_⟩
  · intro error herror
    rw [hexamined.singles_eq hown herror]
    refine ⟨?_, fun _ => isSingle_of_mem_objections hown⟩
    rw [← hexamined.errors]
    exact Loading.finish_eq_error herror
  · rw [hreported]
    exact length_acceptedFiles_add_length_objections paths
  · intro entity first second hmem
    rw [hreported] at hmem
    exact exists_split_of_duplicate_mem hown hmem

end Report

end Objections

/-! ## Listings -/

/-- The schema files of a listing: those with an extension of schema files, sorted by name. -/
structure SchemaListing (files names : List String) : Prop where
  perm : names.Perm (files.filter fun name => (Path.extension? name).any fun extension =>
    ["json", "yaml", "yml"].contains (asciiLower extension))
  sorted : names.Pairwise (· ≤ ·)

theorem schemaListing_schemaFiles (files : List String) :
    SchemaListing files (schemaFiles files) where
  perm := by
    rw [schemaFiles, funext isSchemaFile_eq]
    exact List.mergeSort_perm _ _
  sorted := by
    rw [schemaFiles]
    exact List.pairwise_mergeSort' (· ≤ ·) _

theorem SchemaListing.unique {files names names' : List String} (h : SchemaListing files names)
    (h' : SchemaListing files names') : names = names' := by
  apply List.Perm.eq_of_pairwise' h.sorted h'.sorted
  exact h.perm.trans h'.perm.symm

theorem SchemaListing.of_perm {files files' names : List String} (h : SchemaListing files names)
    (hperm : files.Perm files') : SchemaListing files' names where
  perm := h.perm.trans (hperm.filter _)
  sorted := h.sorted

theorem loadFile_congr {disk disk' : Disk} (h : ∀ path, disk'.read? path = disk.read? path) :
    loadFile disk' = loadFile disk := by
  funext compiler path
  rw [loadFile, loadFile, readSchema, readSchema, h path]

theorem loadDirectory_eq_examine {disk : Disk} {directory : String} {files names : List String}
    (hfiles : disk.list? directory = some files) (hnames : SchemaListing files names)
    (compiler : Compiler) : loadDirectory disk compiler directory =
      (Loading.examine (loadFile disk compiler) (names.map (Path.join directory))).finish := by
  have hschema : schemaFiles files = names := (schemaListing_schemaFiles files).unique hnames
  rw [loadDirectory, hfiles, Loading.examine, List.foldl_map]
  simp only [hschema]

/-- A directory is loaded as a whole or not at all: either all of its schema files load, in the
order of their names and as entities of their own, or each file that is not accepted is reported
once. The order in which the directory lists its files does not matter. -/
theorem loadDirectory_all_or_nothing {disk : Disk} {directory : String} {files names : List String}
    (hfiles : disk.list? directory = some files) (hnames : SchemaListing files names)
    (compiler : Compiler) :
    AllOrNothing (loadFile disk compiler) (names.map (Path.join directory))
      (loadDirectory disk compiler directory) ∧
    ∀ (disk' : Disk) (files' : List String), disk'.list? directory = some files' →
      files.Perm files' → (∀ path, disk'.read? path = disk.read? path) →
      loadDirectory disk' compiler directory = loadDirectory disk compiler directory := by
  refine ⟨?_, ?_⟩
  · rw [loadDirectory_eq_examine hfiles hnames]
    exact allOrNothing_examine (fun _ _ => isOwn_of_loadFile) _
  · intro disk' files' hfiles' hperm hread
    rw [loadDirectory_eq_examine hfiles hnames,
      loadDirectory_eq_examine hfiles' (hnames.of_perm hperm), loadFile_congr hread]

/-- A file that does not compile, two that load after it as the entity it names, and a note. -/
def postFiles : List String := ["c.JSON", "notes.txt", "a.json", "b.json"]

def clashingPosts (files : List String) : Disk := Disk.ofList
  [("schemas", .directory files),
    ("schemas/a.json", .file
      "\x7b\"name\":\"post\",\"rls\":\x7b\"read\":\x7b\x7d,\"write\":\x7b\"$or\":[]\x7d\x7d\x7d".toUTF8),
    ("schemas/b.json", .file
      "\x7b\"name\":\"post\",\"rls\":\x7b\"read\":\x7b\x7d,\"write\":\x7b\x7d\x7d\x7d".toUTF8),
    ("schemas/c.JSON", .file
      "\x7b\"name\":\"post\",\"rls\":\x7b\"read\":\x7b\x7d,\"write\":\x7b\x7d\x7d\x7d".toUTF8)]

theorem read?_clashingPosts (files files' : List String) (path : String) :
    (clashingPosts files).read? path = (clashingPosts files').read? path := by
  by_cases hpath : path = "schemas"
  · subst hpath
    rfl
  · have hother : (path == "schemas") = false := beq_false_of_ne hpath
    simp only [Disk.read?, clashingPosts, Disk.ofList, List.lookup_cons, hother]

theorem loadDirectory_all_or_nothing_clashingPosts :
    SchemaListing postFiles ["a.json", "b.json", "c.JSON"] ∧
    (∃ error, loadDirectory (clashingPosts postFiles) {} "schemas" = .error error ∧
      error.singles.map SchemaError.message =
        ["Entity 'post': Empty composite at write.$or: '$or' requires at least one sub-rule",
          "Duplicate entity 'post' in schemas/b.json and schemas/c.JSON"]) ∧
    loadDirectory (clashingPosts postFiles.reverse) {} "schemas" =
      loadDirectory (clashingPosts postFiles) {} "schemas" := by
  have hlisting : SchemaListing postFiles ["a.json", "b.json", "c.JSON"] :=
    ⟨by decide +kernel, by decide +kernel⟩
  have hfiles : (clashingPosts postFiles).list? "schemas" = some postFiles := rfl
  obtain ⟨hall, hrelisted⟩ := loadDirectory_all_or_nothing hfiles hlisting {}
  refine ⟨hlisting, ?_, ?_⟩
  · have hrefused : (loadFile (clashingPosts postFiles) {} "schemas/a.json").toBool = false := by
      decide +kernel
    cases hload : loadDirectory (clashingPosts postFiles) {} "schemas" with
    | ok sets =>
        obtain ⟨hloads, -⟩ := (hall.loaded sets).mp hload
        obtain ⟨policies, -, hfile⟩ := exists_right_of_forall₂ hloads List.mem_cons_self
        have hjoin : Path.join "schemas" "a.json" = "schemas/a.json" := rfl
        rw [← hjoin, hfile] at hrefused
        cases hrefused
    | error error =>
        have hreported := hall.reported
        rw [hload, reportedErrors] at hreported
        refine ⟨error, rfl, ?_⟩
        rw [hreported]
        decide +kernel
  · have hperm : postFiles.Perm postFiles.reverse := (List.reverse_perm postFiles).symm
    exact hrelisted _ _ rfl hperm fun path => read?_clashingPosts _ _ path

end RowPolicy
