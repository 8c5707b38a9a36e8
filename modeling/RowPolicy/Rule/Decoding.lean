import RowPolicy.Rule.Encoding

/-!
# Rules from JSON

Reading the exchange form. Besides the form that is written, readers take an alternative as an
array of its tag and all its fields in order; a plain record as an array of its fields; and members
of an object that no field is named for are passed over. The outermost tag is a name, while a tag
further in may also be the position of the alternative.
-/

namespace RowPolicy

inductive TagPlace
  | outermost
  | inner
deriving DecidableEq

def tagPosition? (names : List String) (place : TagPlace) : Json → Option Nat
  | .string name => names.idxOf? name
  | .number (.integer position) =>
    if place = .inner ∧ 0 ≤ position.value ∧ position.value < names.length then
      some position.value.toNat
    else none
  | _ => none

/-- The values of named fields: all of them as members of an object, or exactly these in an
array. -/
def fields? (names : List String) : Json → Option (List Json)
  | .object members => names.mapM fun name => members.lookup name
  | .array items => if items.length = names.length then some items else none
  | _ => none

/-- Takes a tagged value apart: the tag, and what holds the fields. -/
def tagged? (tagName : String) : Json → Option (Json × Json)
  | .object members => (members.lookup tagName).map fun tag => (tag, .object members)
  | .array (tag :: items) => some (tag, .array items)
  | _ => none

def text? : Json → Option String
  | .string text => some text
  | _ => none

/-- The name in a tag without fields: a string, or an object of the name alone with nothing under
it. Nothing is null, and further in also an empty object. -/
def bareTag? (place : TagPlace) : Json → Option String
  | .string name => some name
  | .object [(name, .null)] => some name
  | .object [(name, .object [])] => if place = .inner then some name else none
  | _ => none

def Operation.ofJson? (json : Json) : Option Operation :=
  (bareTag? .outermost json).bind fun name => Operation.all.find? fun o => o.name == name

def NodeKind.ofJson? (json : Json) : Option NodeKind :=
  (bareTag? .outermost json).bind fun name => NodeKind.every.find? fun k => k.name == name

def TemplateRef.ofJson? (json : Json) : Option TemplateRef :=
  match fields? ["attribute"] json with
  | some [name] => (text? name).map TemplateRef.mk
  | _ => none

def ValueSource.ofJson? (place : TagPlace) (json : Json) : Option ValueSource :=
  match fields? ["kind", "value"] json with
  | some [kind, value] =>
    match bareTag? place kind with
    | some "literal" => some (.literal value)
    | some "template" => (TemplateRef.ofJson? value).map .template
    | _ => none
  | _ => none

def Condition.ofJson? (place : TagPlace) (json : Json) : Option Condition :=
  match tagged? "kind" json with
  | none => none
  | some (tag, content) =>
    match tagPosition? ["field_equals", "user_attribute_match"] place tag with
    | some 0 =>
      match fields? ["field", "value_source"] content with
      | some [field, source] =>
        match text? field, ValueSource.ofJson? .inner source with
        | some field, some source => some (.fieldEquals field source)
        | _, _ => none
      | _ => none
    | some 1 =>
      match fields? ["attributes"] content with
      | some [.object attributes] => some (.attributeMatch (Dict.ofList attributes))
      | _ => none
    | _ => none

namespace Rule

def tags : List String := ["Empty", "And", "Or", "Leaf"]

def connectiveAt? : Nat → Option Connective
  | 1 => some .all
  | 2 => some .any
  | _ => none

def leafOf? (content : Json) : Option Rule :=
  match fields? ["condition"] content with
  | some [condition] => (Condition.ofJson? .inner condition).map .leaf
  | _ => none

/-- A rule without sub-rules, from the position of its tag and what holds its fields. -/
def simpleOf? (position : Nat) (content : Json) : Option Rule :=
  match position with
  | 0 =>
    match content with
    | .array (_ :: _) => none
    | _ => some .unrestricted
  | 3 => leafOf? content
  | _ => none

mutual

def ofJson? (place : TagPlace) : Json → Option Rule
  | .object members =>
    match (members.lookup "type").bind (tagPosition? tags place) with
    | none => none
    | some position =>
      match connectiveAt? position with
      | some connective => (memberRules? members).map (.composite connective)
      | none => simpleOf? position (.object members)
  | .array (tag :: items) =>
    match tagPosition? tags place tag with
    | none => none
    | some position =>
      match connectiveAt? position with
      | some connective => (soleRules? items).map (.composite connective)
      | none => simpleOf? position (.array items)
  | _ => none

def memberRules? : List (String × Json) → Option (List Rule)
  | [] => none
  | (key, value) :: members => if key = "rules" then arrayRules? value else memberRules? members

def soleRules? : List Json → Option (List Rule)
  | [rules] => arrayRules? rules
  | _ => none

def arrayRules? : Json → Option (List Rule)
  | .array items => ofJsons? items
  | _ => none

def ofJsons? : List Json → Option (List Rule)
  | [] => some []
  | item :: items =>
    match ofJson? .inner item, ofJsons? items with
    | some rule, some rules => some (rule :: rules)
    | _, _ => none

end

end Rule

def PolicySet.ofJson? (json : Json) : Option PolicySet :=
  match fields? ["read", "write"] json with
  | some [read, write] =>
    match Rule.ofJson? .outermost read, Rule.ofJson? .outermost write with
    | some read, some write => some ⟨read, write⟩
    | _, _ => none
  | _ => none

end RowPolicy
