import RowPolicy.Compiler
import RowPolicy.Json.Numeral
import RowPolicy.Text.Blank

/-!
# Settings

The settings of the tool and the environment variables that override them. An environment gives a
text to some names; a variable that is not set leaves its setting alone.
-/

namespace RowPolicy

structure SchemaSettings where
  directory : String := "./schemas"
  pollSeconds : UInt64 := 5
deriving DecidableEq

structure PrincipalSettings where
  attributes : List String := Namespace.standard.names
deriving DecidableEq

structure EvaluationSettings where
  trace : Bool := false
deriving DecidableEq

structure LoggingSettings where
  level : String := "info"
  format : String := "pretty"
  output : String := "console"
  directory : String := "./logs"
deriving DecidableEq

structure Settings where
  schemas : SchemaSettings := {}
  principal : PrincipalSettings := {}
  evaluation : EvaluationSettings := {}
  logging : LoggingSettings := {}
deriving DecidableEq

inductive LogFormat
  | pretty
  | json
  | compact
deriving DecidableEq

/-- The layout of a name; every other name means the pretty one. -/
def LogFormat.parse : Option String → LogFormat
  | some "json" => .json
  | some "compact" => .compact
  | _ => .pretty

inductive LogOutput
  | console
  | file
  | both
deriving DecidableEq

/-- The destination of a name; every other name means the console. -/
def LogOutput.parse : Option String → LogOutput
  | some "file" => .file
  | some "both" => .both
  | _ => .console

abbrev Environment := Dict String

inductive Variable
  | schemaDirectory
  | pollSeconds
  | attributes
  | trace
  | logLevel
  | logFormat
  | logOutput
  | logDirectory
deriving DecidableEq

/-- The variables in the order in which they are looked at. -/
def Variable.all : List Variable :=
  [.schemaDirectory, .pollSeconds, .attributes, .trace, .logLevel, .logFormat, .logOutput,
    .logDirectory]

def Variable.name : Variable → String
  | .schemaDirectory => "RLS_SCHEMA_DIR"
  | .pollSeconds => "RLS_POLL_INTERVAL_SECS"
  | .attributes => "RLS_PRINCIPAL_ATTRIBUTES"
  | .trace => "RLS_TRACE"
  | .logLevel => "RUST_LOG"
  | .logFormat => "LOG_FORMAT"
  | .logOutput => "LOG_OUTPUT"
  | .logDirectory => "LOG_DIR"

structure InvalidVariable where
  name : Variable
  value : String
deriving DecidableEq

def InvalidVariable.message (error : InvalidVariable) : String :=
  "Invalid value for " ++ error.name.name ++ ": " ++ error.value

namespace Settings

/-- The count that a text spells: an optional plus sign and decimal digits, below `2 ^ 64`. -/
def seconds? (text : String) : Option UInt64 :=
  let digits := match text.toList with
    | '+' :: rest => rest
    | all => all
  if digits.isEmpty || !digits.all Char.isDigit then none
  else
    let value := Json.digitsValue digits
    if value < 0x10000000000000000 then some (UInt64.ofNat value) else none

/-- The truth value that a text spells in any case; nothing means false. -/
def switch? (text : String) : Option Bool :=
  let text := asciiLower text
  if ["1", "true", "yes", "on"].contains text then some true
  else if ["0", "false", "no", "off", ""].contains text then some false
  else none

/-- The names between commas, without the white space around them and without empty ones. -/
def names (text : String) : List String :=
  (((Text.splitWhen (· == ',') text.toList).map Text.trim).filter fun name => !name.isEmpty).map
    String.ofList

def override (settings : Settings) (name : Variable) (text : String) :
    Except InvalidVariable Settings :=
  let { schemas, principal, evaluation, logging } := settings
  match name with
  | .schemaDirectory => .ok { settings with schemas := { schemas with directory := text } }
  | .pollSeconds =>
    match seconds? text with
    | some pollSeconds => .ok { settings with schemas := { schemas with pollSeconds } }
    | none => .error ⟨.pollSeconds, text⟩
  | .attributes =>
    .ok { settings with principal := { principal with attributes := names text } }
  | .trace =>
    match switch? text with
    | some trace => .ok { settings with evaluation := { evaluation with trace } }
    | none => .error ⟨.trace, text⟩
  | .logLevel => .ok { settings with logging := { logging with level := text } }
  | .logFormat => .ok { settings with logging := { logging with format := text } }
  | .logOutput => .ok { settings with logging := { logging with output := text } }
  | .logDirectory => .ok { settings with logging := { logging with directory := text } }

def overrideAll (settings : Settings) (environment : Environment) :
    Except InvalidVariable Settings :=
  Variable.all.foldlM (fun settings name =>
    match environment.get? name.name with
    | some text => settings.override name text
    | none => .ok settings) settings

/-- The compiler whose templates may refer to exactly the configured attributes. -/
def compiler (settings : Settings) : Compiler := ⟨⟨settings.principal.attributes⟩⟩

def loggingEnvironment (settings : Settings) : List (String × String) :=
  [(Variable.logLevel.name, settings.logging.level), (Variable.logFormat.name, settings.logging.format),
    (Variable.logOutput.name, settings.logging.output),
    (Variable.logDirectory.name, settings.logging.directory)]

def toJson (settings : Settings) : Json :=
  .object
    [("schemas", .object [("directory", .string settings.schemas.directory),
      ("poll_interval_secs", Json.ofNat settings.schemas.pollSeconds.toNat)]),
    ("principal", .object [("attributes", .array (settings.principal.attributes.map .string))]),
    ("evaluation", .object [("trace", .bool settings.evaluation.trace)]),
    ("logging", .object [("level", .string settings.logging.level),
      ("format", .string settings.logging.format), ("output", .string settings.logging.output),
      ("directory", .string settings.logging.directory)])]

end Settings

end RowPolicy
