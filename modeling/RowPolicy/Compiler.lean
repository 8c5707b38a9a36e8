import RowPolicy.Template

/-!
# Compiling declared rules

A declared rule is a JSON object with at most one member: none at all (no restriction), one of the
operators `$or` and `$and` over a non-empty array of rules, `user_condition` over attribute values,
or a record field and the value it must equal. Everything else is refused, with the place of the
first violation in reading order.
-/

namespace RowPolicy

/-- A place in a declared rule: the keys on the way, joined by dots, with `[i]` for an element. The
empty text is the root. -/
abbrev Location := String

namespace Location

def rootName : String := "<root>"

def display (place : Location) : String := if place = "" then rootName else place

def member (place : Location) (key : String) : Location :=
  if place = "" then key else place ++ "." ++ key

def item (place : Location) (index : Nat) : Location :=
  place ++ "[" ++ toString index ++ "]"

end Location

inductive Malformation
  | notAnObject (found : String)
  | severalKeys (keys : List String)
  | notAnArray (operator : String) (found : String)
  | emptyField
  | notAttributes (found : String)
  | noAttributes
  | emptyAttribute
  | notScalar (found : String)
  | templateInCondition
deriving DecidableEq

/-- The key that declares a test of principal attributes. -/
def conditionKey : String := "user_condition"

def Malformation.reason : Malformation → String
  | .notAnObject found => "expected an object, found " ++ found
  | .severalKeys keys =>
    "expected exactly one key, found " ++ toString keys.length ++ " (" ++ ", ".intercalate keys
      ++ "); combine conditions with '" ++ Connective.all.operator ++ "'"
  | .notAnArray operator found =>
    "'" ++ operator ++ "' expects an array of rules, found " ++ found
  | .emptyField => "field name must not be empty"
  | .notAttributes found =>
    "'" ++ conditionKey ++ "' expects an object of attribute values, found " ++ found
  | .noAttributes => "'" ++ conditionKey ++ "' must name at least one attribute"
  | .emptyAttribute => "attribute name must not be empty"
  | .notScalar found => "expected a string, number or boolean, found " ++ found
  | .templateInCondition => "templates are not supported inside '" ++ conditionKey ++ "'"

inductive Violation
  | malformed (what : Malformation)
  | emptyComposite (operator : String)
  | unknownOperator (operator : String)
  | template (error : TemplateError)
deriving DecidableEq

/-- A refused rule: the violation and the written form of its place. -/
structure CompileError where
  location : String
  violation : Violation
deriving DecidableEq

namespace CompileError

def message (error : CompileError) : String :=
  match error.violation with
  | .malformed what => "Malformed rule at " ++ error.location ++ ": " ++ what.reason
  | .emptyComposite operator =>
    "Empty composite at " ++ error.location ++ ": '" ++ operator
      ++ "' requires at least one sub-rule"
  | .unknownOperator operator => "Unknown operator '" ++ operator ++ "' at " ++ error.location
  | .template (.unknownReference path) =>
    "Unknown template reference '" ++ path ++ "' at " ++ error.location
  | .template (.malformed raw offset) =>
    "Malformed template at " ++ error.location ++ ": '" ++ raw ++ "': " ++ TemplateError.fault offset

/-- Puts a place in front of the location. -/
def under (error : CompileError) (scope : String) : CompileError :=
  { error with
    location :=
      if error.location = Location.rootName then scope else scope ++ "." ++ error.location }

end CompileError

structure Compiler where
  scope : Namespace := Namespace.standard

namespace Compiler

def refuse {α : Type} (place : Location) (violation : Violation) : Except CompileError α :=
  .error ⟨place.display, violation⟩

/-- Whether a value is a string, a number or a truth value. -/
def isScalar : Json → Bool
  | .string _ | .number _ | .bool _ => true
  | _ => false

def checkAttributes (place : Location) : List (String × Json) → Except CompileError Unit
  | [] => .ok ()
  | (name, expected) :: rest =>
    let here := place.member name
    if name = "" then refuse here (.malformed .emptyAttribute)
    else
      match expected with
      | .string text =>
        if Template.isLike text then refuse here (.malformed .templateInCondition)
        else checkAttributes place rest
      | _ =>
        if isScalar expected then checkAttributes place rest
        else refuse here (.malformed (.notScalar expected.kindName))

def compileCondition (place : Location) (value : Json) : Except CompileError Rule :=
  match value with
  | .object [] => refuse place (.malformed .noAttributes)
  | .object members =>
    match checkAttributes place members with
    | .ok () => .ok (.leaf (.attributeMatch (Dict.ofList members)))
    | .error error => .error error
  | _ => refuse place (.malformed (.notAttributes value.kindName))

def compileField (compiler : Compiler) (place : Location) (field : String) (value : Json) :
    Except CompileError Rule :=
  match value with
  | .string raw =>
    match compiler.scope.resolve raw with
    | .ok source => .ok (.leaf (.fieldEquals field source))
    | .error error => refuse place (.template error)
  | _ =>
    if isScalar value then .ok (.leaf (.fieldEquals field (.literal value)))
    else refuse place (.malformed (.notScalar value.kindName))

def connective? (key : String) : Option Connective :=
  if key = Connective.any.operator then some .any
  else if key = Connective.all.operator then some .all
  else none

/-- Compiles a member that is not a composite. -/
def compileLeaf (compiler : Compiler) (place : Location) (key : String) (value : Json) :
    Except CompileError Rule :=
  if key.toList.head? = some '$' then refuse place (.unknownOperator key)
  else if key = conditionKey then compileCondition place value
  else if key = "" then refuse place (.malformed .emptyField)
  else compiler.compileField place key value

mutual

def compileAt (compiler : Compiler) (place : Location) : Json → Except CompileError Rule
  | .object [] => .ok .unrestricted
  | .object [(key, value)] =>
    match connective? key with
    | some connective =>
      match compileComposite compiler (place.member key) connective.operator value with
      | .ok rules => .ok (.composite connective rules)
      | .error error => .error error
    | none => compiler.compileLeaf (place.member key) key value
  | .object members => refuse place (.malformed (.severalKeys (members.map Prod.fst)))
  | json => refuse place (.malformed (.notAnObject json.kindName))

def compileComposite (compiler : Compiler) (place : Location) (operator : String) :
    Json → Except CompileError (List Rule)
  | .array [] => refuse place (.emptyComposite operator)
  | .array items => compileItems compiler place 0 items
  | json => refuse place (.malformed (.notAnArray operator json.kindName))

/-- Compiles elements in turn, the first of which has the given index. -/
def compileItems (compiler : Compiler) (place : Location) (index : Nat) :
    List Json → Except CompileError (List Rule)
  | [] => .ok []
  | item :: items =>
    match compileAt compiler (place.item index) item with
    | .error error => .error error
    | .ok rule =>
      match compileItems compiler place (index + 1) items with
      | .error error => .error error
      | .ok rules => .ok (rule :: rules)

end

def compile (compiler : Compiler) (raw : Json) : Except CompileError Rule :=
  compiler.compileAt "" raw

/-- Compiles the rule of an operation; the location of an error starts with the operation. -/
def compileFor (compiler : Compiler) (operation : Operation) (raw : Json) :
    Except CompileError Rule :=
  (compiler.compile raw).mapError (·.under operation.name)

def compileSet (compiler : Compiler) (read write : Json) : Except CompileError PolicySet :=
  match compiler.compileFor .read read with
  | .error error => .error error
  | .ok read =>
    match compiler.compileFor .write write with
    | .error error => .error error
    | .ok write => .ok ⟨read, write⟩

end Compiler

end RowPolicy
