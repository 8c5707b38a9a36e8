import RowPolicy.Command

/-!
# The command line

The verbs of the tool and the options that each of them takes. An option is written with two
dashes; its value is the next argument or follows an equals sign. Two options may be given before
or after the verb.
-/

namespace RowPolicy

namespace CommandLine

inductive ValueKind
  | text
  | path
  | operation
  | seconds
deriving DecidableEq

def ValueKind.accepts (value : String) : ValueKind → Bool
  | .text => true
  | .path => value != ""
  | .operation => (Operation.parse? value).isSome
  | .seconds => (Settings.seconds? value).isSome

/-- An option; one without a kind of value is a switch. -/
structure Parameter where
  name : String
  kind : Option ValueKind
  required : Bool := false
  standard : Option String := none
  about : String := ""

/-- The options that may be given before or after the verb. -/
def common : List Parameter :=
  [{ name := "config", kind := some .path, standard := some "config.yaml",
     about := "Path to config.yaml (defaults apply when absent)" },
   { name := "schemas", kind := some .path, about := "Entity schema directory (overrides config)" }]

inductive Verb
  | validate
  | decide
  | describe
  | filter
  | watch
deriving DecidableEq

namespace Verb

def all : List Verb := [.validate, .decide, .describe, .filter, .watch]

def name : Verb → String
  | .validate => "validate"
  | .decide => "decide"
  | .describe => "show"
  | .filter => "filter"
  | .watch => "watch"

def ofName? (word : String) : Option Verb := all.find? fun verb => verb.name == word

def about : Verb → String
  | .validate => "Compile every entity schema and report errors"
  | .decide => "Decide one access request"
  | .describe => "Print compiled policies as JSON"
  | .filter => "Print the records a principal may access"
  | .watch => "Poll the schema directory and hot-reload on change"

def principal : Parameter :=
  { name := "principal", kind := some .text, standard := some "\x7b\x7d",
    about := "Principal attributes as a JSON object, or @file.json" }

def operation (about : String) : Parameter :=
  { name := "operation", kind := some .operation, standard := some Operation.read.name, about }

def own : Verb → List Parameter
  | .validate => []
  | .decide =>
    [{ name := "entity", kind := some .text, required := true }, operation "read or write",
     principal,
     { name := "record", kind := some .text,
       about := "Target record as a JSON object, or @file.json" },
     { name := "trace", kind := none, about := "Include the evaluation trace" }]
  | .describe =>
    [{ name := "entity", kind := some .text,
       about := "Only this entity (all entities when omitted)" }]
  | .filter =>
    [{ name := "entity", kind := some .text, required := true }, operation "", principal,
     { name := "records", kind := some .text, required := true,
       about := "JSON array of records, or @file.json" }]
  | .watch =>
    [{ name := "interval-secs", kind := some .seconds,
       about := "Seconds between polls (overrides config)" }]

def parameters (verb : Verb) : List Parameter := verb.own ++ common

end Verb

/-- What is to be done: answering a command, or watching the schemas. -/
inductive Task
  | answer (command : Command)
  | watch (seconds : Option UInt64)
deriving DecidableEq

structure Invocation where
  configPath : String
  schemas : Option String
  task : Task
deriving DecidableEq

/-- What an overview is asked about: the whole tool, a verb, or asking for overviews. -/
inductive Topic
  | tool
  | verb (verb : Verb)
  | help
deriving DecidableEq

inductive Meaning
  | invocation (invocation : Invocation)
  | help (topic : Topic)
  | version
  | refused
deriving DecidableEq

end CommandLine

end RowPolicy
