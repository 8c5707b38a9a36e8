import RowPolicy.Compiler
import RowPolicy.Disk
import RowPolicy.Registry
import RowPolicy.Schema.Document

/-!
# Loading schemas

An entity is named by its document or else by its file. All schema files of a directory are loaded
or none: every file that is refused contributes one error, in the order of the file names.
-/

namespace RowPolicy

inductive SchemaError
  | unreadable (path : String)
  | notParsed (format : SchemaFormat) (path : String)
  | noName (path : String)
  | noRules (entity : String)
  | noRule (entity : String) (operation : Operation)
  | refused (entity : String) (error : CompileError)
  | duplicate (entity first second : String)
  | several (errors : List SchemaError)

def SchemaFormat.name : SchemaFormat → String
  | .json => "JSON"
  | .yaml => "YAML"

namespace SchemaError

/-- The wording of an error. What a parser or the system has to say about a file is left out. -/
def message : SchemaError → String
  | .unreadable path => "Failed to read schema " ++ path
  | .notParsed format path => "Failed to parse " ++ format.name ++ " schema " ++ path
  | .noName path => "Cannot determine entity name for " ++ path
  | .noRules entity => "Entity '" ++ entity ++ "' declares no rls block"
  | .noRule entity operation =>
    "Entity '" ++ entity ++ "' declares no rls." ++ operation.name ++ " rule"
  | .refused entity error => "Entity '" ++ entity ++ "': " ++ error.message
  | .duplicate entity first second =>
    "Duplicate entity '" ++ entity ++ "' in " ++ first ++ " and " ++ second
  | .several errors => toString errors.length ++ " entity schemas failed to load"

mutual

/-- The single errors that an error stands for. -/
def singles : SchemaError → List SchemaError
  | .several errors => allSingles errors
  | error => [error]

def allSingles : List SchemaError → List SchemaError
  | [] => []
  | error :: errors => singles error ++ allSingles errors

end

end SchemaError

def Compiler.compileEntity (compiler : Compiler) (entity : String) (read write : Json) :
    Except SchemaError PolicySet :=
  (compiler.compileSet read write).mapError (.refused entity)

namespace SchemaDocument

/-- The name of the entity: the declared one if it is not empty, else the stem of the path. -/
def entityName (document : SchemaDocument) (path : String) : Except SchemaError String :=
  match document.name.filter (· != "") with
  | some name => .ok name
  | none =>
    match Path.stem? path with
    | some stem => .ok stem
    | none => .error (.noName path)

/-- Compiles the rules of a document; a missing block or rule refuses the entity. -/
def compile (document : SchemaDocument) (entity : String) (compiler : Compiler) :
    Except SchemaError PolicySet :=
  match document.rules with
  | none => .error (.noRules entity)
  | some block =>
    match block.read with
    | none => .error (.noRule entity .read)
    | some read =>
      match block.write with
      | none => .error (.noRule entity .write)
      | some write => compiler.compileEntity entity read write

end SchemaDocument

namespace SchemaFormat

def extension? (path : String) : Option String := (Path.extension? path).map asciiLower

def isYaml (path : String) : Bool := extension? path == some "yaml" || extension? path == some "yml"

/-- The format in which a file is read: YAML by its extension, all else JSON. -/
def ofPath (path : String) : SchemaFormat := if isYaml path then .yaml else .json

def isSchemaFile (path : String) : Bool := extension? path == some "json" || isYaml path

end SchemaFormat

abbrev EntityPolicies := String × PolicySet

def readSchema (disk : Disk) (path : String) : Except SchemaError SchemaDocument :=
  match disk.read? path with
  | none => .error (.unreadable path)
  | some text =>
    let format := SchemaFormat.ofPath path
    match SchemaDocument.parse? format text with
    | some document => .ok document
    | none => .error (.notParsed format path)

def loadFile (disk : Disk) (compiler : Compiler) (path : String) :
    Except SchemaError EntityPolicies :=
  match readSchema disk path with
  | .error error => .error error
  | .ok document =>
    match document.entityName path with
    | .error error => .error error
    | .ok entity =>
      match document.compile entity compiler with
      | .error error => .error error
      | .ok set => .ok (entity, set)

/-- What loading files one after the other has brought so far, each list with the last one first:
the entities with their paths, and the errors. -/
structure Loading where
  loaded : List (EntityPolicies × String) := []
  errors : List SchemaError := []

namespace Loading

def origin? (loading : Loading) (entity : String) : Option String :=
  (loading.loaded.find? fun entry => entry.1.1 == entity).map Prod.snd

def refuse (loading : Loading) (error : SchemaError) : Loading :=
  { loading with errors := error :: loading.errors }

/-- Adds the outcome of loading a file; an entity that has been loaded before is an error. -/
def add (loading : Loading) (path : String) :
    Except SchemaError EntityPolicies → Loading
  | .error error => loading.refuse error
  | .ok policies =>
    match loading.origin? policies.1 with
    | some first => loading.refuse (.duplicate policies.1 first path)
    | none => { loading with loaded := (policies, path) :: loading.loaded }

/-- The outcome: all entities in order, or all errors. -/
def finish (loading : Loading) : Except SchemaError (List EntityPolicies) :=
  match loading.errors with
  | [] => .ok (loading.loaded.map Prod.fst).reverse
  | [error] => .error error
  | errors => .error (.several errors.reverse)

end Loading

def schemaFiles (files : List String) : List String :=
  (files.filter SchemaFormat.isSchemaFile).mergeSort fun a b => decide (a ≤ b)

def loadDirectory (disk : Disk) (compiler : Compiler) (directory : String) :
    Except SchemaError (List EntityPolicies) :=
  match disk.list? directory with
  | none => .error (.unreadable directory)
  | some files =>
    ((schemaFiles files).foldl (fun (loading : Loading) name =>
      let path := Path.join directory name
      loading.add path (loadFile disk compiler path)) {}).finish

/-- Loads a directory into a registry; if that fails, the registry stays as it is. -/
def Registry.reloadFrom (registry : Registry) (disk : Disk) (compiler : Compiler)
    (directory : String) : Except SchemaError (Registry × ReloadOutcome) :=
  (loadDirectory disk compiler directory).map registry.reload

end RowPolicy
