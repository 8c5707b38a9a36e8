import RowPolicy.CommandLine.Basic

/-!
# Reading the command line

Arguments are read from left to right, and the first that asks for help, asks for the version or
cannot be used settles what the line means.
-/

namespace RowPolicy

namespace CommandLine

/-- The options given so far with their values; a switch has an empty one. -/
abbrev Given := List (String × String)

inductive Halt
  | help
  | version
  | refused
deriving DecidableEq

/-- What may be given at a place of the line. -/
structure Level where
  parameters : List Parameter
  hasVersion : Bool

/-- Splits an option at its first equals sign. -/
def splitOption (text : List Char) : String × Option String :=
  let name := String.ofList (text.takeWhile (· != '='))
  match text.dropWhile (· != '=') with
  | [] => (name, none)
  | _ :: value => (name, some (String.ofList value))

/-- Whether an argument looks like an option, and so is no value of the one before it. -/
def isOption (argument : String) : Bool :=
  match argument.toList with
  | '-' :: _ :: _ => true
  | _ => false

/-- Adds an option. It may be given once, and its value must be of its kind. -/
def give (given : Given) (parameter : Parameter) (value : String) : Except Halt Given :=
  if given.any (fun entry => entry.1 == parameter.name)
      || !parameter.kind.all (ValueKind.accepts value) then .error .refused
  else .ok ((parameter.name, value) :: given)

/-- Reads options up to the first argument that is none; it is answered with those after it. -/
def options (level : Level) (given : Given) :
    List String → Except Halt (Given × Option (String × List String))
  | [] => .ok (given, none)
  | argument :: rest =>
    match argument.toList with
    | ['-', '-'] => if rest.isEmpty then .ok (given, none) else .error .refused
    | '-' :: '-' :: text =>
      let (name, attached) := splitOption text
      match level.parameters.find? (·.name == name), attached with
      | none, none =>
        if name = "help" then .error .help
        else if name = "version" ∧ level.hasVersion then .error .version
        else .error .refused
      | none, some _ => .error .refused
      | some parameter, some value =>
        if parameter.kind.isNone then .error .refused
        else
          match give given parameter value with
          | .error halt => .error halt
          | .ok given => options level given rest
      | some parameter, none =>
        if parameter.kind.isNone then
          match give given parameter "" with
          | .error halt => .error halt
          | .ok given => options level given rest
        else
          match rest with
          | [] => .error .refused
          | value :: rest =>
            if isOption value then .error .refused
            else
              match give given parameter value with
              | .error halt => .error halt
              | .ok given => options level given rest
    | '-' :: short :: _ =>
      if short = 'h' then .error .help
      else if short = 'V' ∧ level.hasVersion then .error .version
      else .error .refused
    | _ => .ok (given, some (argument, rest))

/-- The value of an option: the one given, or else the standard one. -/
def value? (parameters : List Parameter) (given : Given) (name : String) : Option String :=
  match given.lookup name with
  | some value => some value
  | none => (parameters.find? (·.name == name)).bind (·.standard)

/-- The task of a verb with its options, unless a required one is missing. -/
def task? (verb : Verb) (given : Given) : Option Task :=
  let value (name : String) : Option String := value? verb.parameters given name
  match verb with
  | .validate => some (.answer .validate)
  | .decide => do
    let entity ← value "entity"
    let operation ← (value "operation").bind Operation.parse?
    let principal ← value "principal"
    some (.answer (.decide entity operation principal (value "record")
      (given.lookup "trace").isSome))
  | .describe => some (.answer (.describe (value "entity")))
  | .filter => do
    let entity ← value "entity"
    let operation ← (value "operation").bind Operation.parse?
    let principal ← value "principal"
    let records ← value "records"
    some (.answer (.filter entity operation principal records))
  | .watch => some (.watch ((value "interval-secs").bind Settings.seconds?))

/-- What a verb means with the options before and after it; those after it count more. -/
def invocation? (before : Given) (verb : Verb) (given : Given) : Option Invocation := do
  let task ← task? verb given
  let shared (name : String) : Option String := value? common (given ++ before) name
  some ⟨← shared "config", shared "schemas", task⟩

/-- The meaning of a line after the word help. -/
def helpOn : List String → Meaning
  | [] => .help .tool
  | ["help"] => .help .help
  | [word] =>
    match Verb.ofName? word with
    | some verb => .help (.verb verb)
    | none => .refused
  | _ => .refused

def afterVerb (before : Given) (verb : Verb) (arguments : List String) : Meaning :=
  match options ⟨verb.parameters, false⟩ [] arguments with
  | .error .help => .help (.verb verb)
  | .error _ | .ok (_, some _) => .refused
  | .ok (given, none) =>
    match invocation? before verb given with
    | some invocation => .invocation invocation
    | none => .refused

def parse (arguments : List String) : Meaning :=
  match options ⟨common, true⟩ [] arguments with
  | .error .help => .help .tool
  | .error .version => .version
  | .error .refused | .ok (_, none) => .refused
  | .ok (before, some (word, rest)) =>
    if word = "help" then helpOn rest
    else
      match Verb.ofName? word with
      | some verb => afterVerb before verb rest
      | none => .refused

end CommandLine

end RowPolicy
