import RowPolicy.Disk
import RowPolicy.Settings.Basic
import RowPolicy.Yaml.Reader

/-!
# Loading settings

A settings file is a YAML mapping of blocks. What it leaves out keeps its default, and members that
mean nothing are passed over; a member that is given twice is refused. The environment is looked at
last and overrides the file.
-/

namespace RowPolicy

inductive SettingsError
  | unreadable
  | notParsed
  | invalid (error : InvalidVariable)
deriving DecidableEq

/-- The wording of an error. What a parser or the system has to say about a file is left out. -/
def SettingsError.message : SettingsError → String
  | .unreadable => "Failed to read config file"
  | .notParsed => "Failed to parse YAML"
  | .invalid error => error.message

open Yaml (Node Reader)

structure Block where
  depth : Nat
  fields : List (String × Node)

namespace Block

def ofNode (depth : Nat) (node : Node) : Reader Block := do
  let (depth, fields) ← Reader.fields depth node
  return ⟨depth, fields⟩

def member {α : Type} (block : Block) (key : String) (read : Node → Reader α) (otherwise : α) :
    Reader α := do
  match block.fields.filter fun field => field.1 == key with
  | [] => return otherwise
  | [(_, node)] => read node
  | _ => failure

def block {α : Type} (outer : Block) (key : String) (read : Block → Reader α) (otherwise : α) :
    Reader α :=
  outer.member key (fun node => do read (← ofNode outer.depth node)) otherwise

def texts (depth : Nat) (node : Node) : Reader (List String) := do
  let (_, items) ← Reader.items depth node
  items.mapM Reader.text

end Block

namespace Settings

def schemasOf (block : Block) : Reader SchemaSettings := do
  let unset : SchemaSettings := {}
  return {
    directory := ← block.member "directory" Reader.text unset.directory
    pollSeconds := ← block.member "poll_interval_secs" Reader.count unset.pollSeconds }

def principalOf (block : Block) : Reader PrincipalSettings := do
  let unset : PrincipalSettings := {}
  return { attributes := ← block.member "attributes" (Block.texts block.depth) unset.attributes }

def evaluationOf (block : Block) : Reader EvaluationSettings := do
  let unset : EvaluationSettings := {}
  return { trace := ← block.member "trace" Reader.bool unset.trace }

def loggingOf (block : Block) : Reader LoggingSettings := do
  let unset : LoggingSettings := {}
  return {
    level := ← block.member "level" Reader.text unset.level
    format := ← block.member "format" Reader.text unset.format
    output := ← block.member "output" Reader.text unset.output
    directory := ← block.member "directory" Reader.text unset.directory }

/-- Reads settings from the root of a document; an empty document gives the defaults. -/
def ofYaml : Option Node → Reader Settings
  | none => return {}
  | some root => do
    let file ← Block.ofNode Yaml.nestingLimit root
    return {
      schemas := ← file.block "schemas" schemasOf {}
      principal := ← file.block "principal" principalOf {}
      evaluation := ← file.block "evaluation" evaluationOf {}
      logging := ← file.block "logging" loggingOf {} }

def parse? (text : String) : Option Settings := (Yaml.parse? text).bind (Reader.run? ofYaml)

def overridden (settings : Settings) (environment : Environment) : Except SettingsError Settings :=
  (settings.overrideAll environment).mapError .invalid

def load (disk : Disk) (environment : Environment) (path : String) :
    Except SettingsError Settings :=
  match disk.read? path with
  | none => .error .unreadable
  | some text =>
    match parse? text with
    | none => .error .notParsed
    | some settings => settings.overridden environment

/-- Loads the settings file at a path; if there is none, the defaults stand in for it. -/
def loadOrDefault (disk : Disk) (environment : Environment) (path : String) :
    Except SettingsError Settings :=
  if disk.occupied path then load disk environment path
  else ({} : Settings).overridden environment

end Settings

end RowPolicy
