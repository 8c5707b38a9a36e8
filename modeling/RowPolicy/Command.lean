import RowPolicy.Json.Printer
import RowPolicy.Schema.Loading
import RowPolicy.Settings.Basic

/-!
# Commands

What the tool is asked to do, and its answers. An answer is the text to print, or an error; nothing
is printed of a command that fails. Principals and records are given as JSON, either at once or as
an at sign and the path of a file that holds it.
-/

namespace RowPolicy

inductive Command
  | validate
  | decide (entity : String) (operation : Operation) (principal : String) (record : Option String)
      (trace : Bool)
  | describe (entity : Option String)
  | filter (entity : String) (operation : Operation) (principal records : String)
deriving DecidableEq

/-- What an argument that holds JSON is about. -/
inductive Subject
  | principal
  | record
  | records
deriving DecidableEq

def Subject.name : Subject → String
  | .principal => "principal"
  | .record => "record"
  | .records => "records"

inductive CommandError
  | unreadable (subject : Subject) (path : String)
  | notParsed (subject : Subject)
  | notObject (subject : Subject) (found : Json)
  | notArray (subject : Subject) (found : Json)
  | notObjects (subject : Subject) (found : Json)
  | notLoaded (directory : String) (error : SchemaError)
  | unknownEntity (error : UnknownEntity)
  | invalidSchemas (directory : String) (faults : List String)

namespace CommandError

def message : CommandError → String
  | .unreadable subject path => "Failed to read " ++ subject.name ++ " from " ++ path
  | .notParsed subject => "Invalid " ++ subject.name ++ " JSON"
  | .notObject subject found => subject.name ++ " must be a JSON object, got " ++ found.compact
  | .notArray subject found => subject.name ++ " must be a JSON array, got " ++ found.compact
  | .notObjects subject found => subject.name ++ " must be JSON objects, got " ++ found.compact
  | .notLoaded directory _ => "Failed to load schemas from " ++ directory
  | .unknownEntity error => error.message
  | .invalidSchemas directory faults =>
    toString faults.length ++ " schema error(s) in " ++ directory

/-- The lines that are written ahead of an error: one for every schema found invalid. -/
def details : CommandError → List String
  | .invalidSchemas _ faults => faults.map fun fault => "✗ " ++ fault
  | _ => []

end CommandError

def argumentPath? (argument : String) : Option String :=
  match argument.toList with
  | '@' :: path => some (String.ofList path)
  | _ => none

/-- The text of an argument: itself, or the content of the file that it names. -/
def argumentText (disk : Disk) (subject : Subject) (argument : String) :
    Except CommandError String :=
  match argumentPath? argument with
  | none => .ok argument
  | some path =>
    match disk.read? path with
    | some text => .ok text
    | none => .error (.unreadable subject path)

def readArgument (disk : Disk) (subject : Subject) (argument : String) :
    Except CommandError Json :=
  match argumentText disk subject argument with
  | .error error => .error error
  | .ok text =>
    match Json.parse? text with
    | some json => .ok json
    | none => .error (.notParsed subject)

def readObject (disk : Disk) (subject : Subject) (argument : String) :
    Except CommandError (List (String × Json)) :=
  match readArgument disk subject argument with
  | .error error => .error error
  | .ok (.object members) => .ok members
  | .ok json => .error (.notObject subject json)

def recordsOf : List Json → Except CommandError (List Record)
  | [] => .ok []
  | .object members :: rest => (recordsOf rest).map (Record.ofList members :: ·)
  | json :: _ => .error (.notObjects .records json)

def readRecords (disk : Disk) (argument : String) : Except CommandError (List Record) :=
  match readArgument disk .records argument with
  | .error error => .error error
  | .ok (.array items) => recordsOf items
  | .ok json => .error (.notArray .records json)

def Settings.registry (settings : Settings) (disk : Disk) : Except CommandError Registry :=
  let directory := settings.schemas.directory
  match Registry.new.reloadFrom disk settings.compiler directory with
  | .ok (registry, _) => .ok registry
  | .error error => .error (.notLoaded directory error)

/-- A name followed by spaces up to a width. -/
def padded (width : Nat) (name : String) : String :=
  name ++ String.ofList (List.replicate (width - name.length) ' ')

namespace Command

def arguments : Command → List String
  | .validate | .describe _ => []
  | .decide _ _ principal record _ => principal :: record.toList
  | .filter _ _ principal records => [principal, records]

def entityLine (policies : EntityPolicies) : String :=
  padded 24 policies.1 ++ " read: " ++ toString policies.2.read.nodeCount
    ++ " nodes, write: " ++ toString policies.2.write.nodeCount ++ " nodes"

/-- What is found of the schemas: a line for each entity, or one for each error. -/
def report (settings : Settings) (disk : Disk) : Except (List String) (List String) :=
  match loadDirectory disk settings.compiler settings.schemas.directory with
  | .ok entities => .ok (entities.map entityLine)
  | .error error => .error (error.singles.map SchemaError.message)

def runValidate (settings : Settings) (disk : Disk) : Except CommandError String :=
  let directory := settings.schemas.directory
  match report settings disk with
  | .ok lines =>
    .ok (String.join (lines.map fun line => "✓ " ++ line ++ "\n") ++ toString lines.length
      ++ " entities valid in " ++ directory ++ "\n")
  | .error faults => .error (.invalidSchemas directory faults)

/-- The text of a printed value: its members in order, indented, and a line end. -/
def printed (json : Json) : String := json.sorted.indented ++ "\n"

def decisionJson (entity : String) (operation : Operation) (decision : Decision) : Json :=
  .object [("entity", .string entity), ("operation", operation.toJson),
    ("allow", .bool decision.allow),
    ("trace", match decision.trace with
      | some trace => .array (trace.map TraceStep.toJson)
      | none => .null)]

def decision (settings : Settings) (disk : Disk) (entity : String) (operation : Operation)
    (principal : String) (record : Option String) (trace : Bool) : Except CommandError Json := do
  let principal ← readObject disk .principal principal
  let record ← match record with
    | some record => (readObject disk .record record).map some
    | none => .ok none
  let registry ← settings.registry disk
  let engine : Engine := ⟨registry, trace || settings.evaluation.trace⟩
  match engine.decide entity operation (Principal.ofList principal) (record.map Record.ofList) with
  | .ok decision => .ok (decisionJson entity operation decision)
  | .error error => .error (.unknownEntity error)

def policiesJson (entity : String) (set : PolicySet) : Json :=
  .object [("entity", .string entity), ("fingerprint", .string set.fingerprint),
    ("read", set.read.toJson), ("write", set.write.toJson)]

def describedEntities (registry : Registry) : Option String → List String
  | some entity => [entity]
  | none => registry.current.entities

def describedPolicies (registry : Registry) (entity : String) : Except CommandError Json :=
  match registry.current.policySet entity with
  | .ok set => .ok (policiesJson entity set)
  | .error error => .error (.unknownEntity error)

def description (settings : Settings) (disk : Disk) (entity : Option String) :
    Except CommandError Json := do
  let registry ← settings.registry disk
  let policies ← (describedEntities registry entity).mapM (describedPolicies registry)
  .ok (.object [("generation", Json.ofNat registry.current.generation),
    ("fingerprint", .string registry.current.fingerprint), ("policies", .array policies)])

/-- The records that a principal may access, in their order. -/
def accessible (settings : Settings) (disk : Disk) (entity : String) (operation : Operation)
    (principal records : String) : Except CommandError (List Record) := do
  let principal ← readObject disk .principal principal
  let records ← readRecords disk records
  let registry ← settings.registry disk
  match (Engine.mk registry false).filter entity operation (Principal.ofList principal) records with
  | .ok records => .ok records
  | .error error => .error (.unknownEntity error)

def run (settings : Settings) (disk : Disk) : Command → Except CommandError String
  | .validate => runValidate settings disk
  | .decide entity operation principal record trace =>
    (decision settings disk entity operation principal record trace).map printed
  | .describe entity => (description settings disk entity).map printed
  | .filter entity operation principal records =>
    (accessible settings disk entity operation principal records).map fun records =>
      printed (.array (records.map Record.toJson))

end Command

end RowPolicy
