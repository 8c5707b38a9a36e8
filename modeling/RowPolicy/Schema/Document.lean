import RowPolicy.Json.Raw
import RowPolicy.Rule.Decoding
import RowPolicy.Yaml.Reader

/-!
# Schema documents

A schema document describes an entity. Only its name and its block of access rules are interpreted;
all other members are kept as they are. A member that is null counts as absent, and a document that
gives the name, the block or a rule twice is refused.
-/

namespace RowPolicy

structure RuleBlock where
  read : Option Json
  write : Option Json

structure SchemaDocument where
  name : Option String
  rules : Option RuleBlock
  other : Dict Json

inductive SchemaFormat
  | json
  | yaml
deriving DecidableEq

def nameKey : String := "name"

def rulesKey : String := "rls"

/-- The value of the only member with a key: the outer option is empty when there are several. -/
def sole? {κ α : Type} [BEq κ] (key : κ) (members : List (κ × α)) : Option (Option α) :=
  match members.filter fun member => member.1 == key with
  | [] => some none
  | [member] => some (some member.2)
  | _ => none

namespace RuleBlock

def toJson (block : RuleBlock) : Json :=
  .object ((block.read.toList.map fun rule => (Operation.read.name, rule))
    ++ block.write.toList.map fun rule => (Operation.write.name, rule))

/-- A declared rule; null declares none. -/
def declared : Json → Option Json
  | .null => none
  | json => some json

/-- Reads a block: an object, or an array of up to two rules in order. -/
def ofJson? : Json → Option RuleBlock
  | .object members =>
    some ⟨(members.lookup Operation.read.name).bind declared,
      (members.lookup Operation.write.name).bind declared⟩
  | .array [] => some ⟨none, none⟩
  | .array [read] => some ⟨declared read, none⟩
  | .array [read, write] => some ⟨declared read, declared write⟩
  | _ => none

def ruleOfRaw? (limit : Nat) : Option Json.Raw → Option (Option Json)
  | none => some none
  | some raw => (raw.value? limit).map declared

/-- Reads a block as written. Members that are not rules are passed over whatever they hold. -/
def ofRaw? (limit : Nat) : Json.Raw → Option RuleBlock
  | .object members =>
    if members.any fun member => member.1.isNone then none
    else
      match sole? (some Operation.read.name) members, sole? (some Operation.write.name) members with
      | some read, some write =>
        match ruleOfRaw? (limit - 1) read, ruleOfRaw? (limit - 1) write with
        | some read, some write => some ⟨read, write⟩
        | _, _ => none
      | _, _ => none
  | .array items =>
    if 2 < items.length then none
    else
      match ruleOfRaw? (limit - 1) items[0]?, ruleOfRaw? (limit - 1) items[1]? with
      | some read, some write => some ⟨read, write⟩
      | _, _ => none
  | _ => none

open Yaml.Reader in
def ruleOfYaml (depth : Nat) : Option Yaml.Node → Yaml.Reader (Option Json)
  | none => return none
  | some node => do
    match ← optional node with
    | none => return none
    | some node => return some (← value .byText depth node)

open Yaml.Reader in
def ofYaml (depth : Nat) (node : Yaml.Node) : Yaml.Reader RuleBlock := do
  let (depth, fields) ← fields depth node
  let read ← sole? Operation.read.name fields
  let write ← sole? Operation.write.name fields
  return ⟨← ruleOfYaml depth read, ← ruleOfYaml depth write⟩

end RuleBlock

namespace SchemaDocument

def empty : SchemaDocument := ⟨none, none, Dict.empty⟩

def toJson (document : SchemaDocument) : Json :=
  .object ((document.name.toList.map fun name => (nameKey, .string name))
    ++ (document.rules.toList.map fun block => (rulesKey, block.toJson))
    ++ document.other.entries)

def isInterpreted (key : String) : Bool := key == nameKey || key == rulesKey

def nameOf? : Option Json → Option (Option String)
  | none | some .null => some none
  | some (.string name) => some (some name)
  | some _ => none

def rulesOf? : Option Json → Option (Option RuleBlock)
  | none | some .null => some none
  | some json => (RuleBlock.ofJson? json).map some

def ofJson? : Json → Option SchemaDocument
  | .object members =>
    match nameOf? (members.lookup nameKey), rulesOf? (members.lookup rulesKey) with
    | some name, some rules =>
      some ⟨name, rules, Dict.ofList (members.filter fun member => !isInterpreted member.1)⟩
    | _, _ => none
  | _ => none

def nameOfRaw? : Option Json.Raw → Option (Option String)
  | none | some .null => some none
  | some (.string (some name)) => some (some name)
  | some _ => none

def rulesOfRaw? (limit : Nat) : Option Json.Raw → Option (Option RuleBlock)
  | none | some .null => some none
  | some raw => (RuleBlock.ofRaw? limit raw).map some

def ofRaw? (limit : Nat) : Json.Raw → Option SchemaDocument
  | .object members =>
    let others := members.filter fun member => !member.1.any isInterpreted
    match sole? (some nameKey) members, sole? (some rulesKey) members,
      Json.Raw.memberValues? others (limit - 1) with
    | some name, some rules, some others =>
      match nameOfRaw? name, rulesOfRaw? (limit - 1) rules with
      | some name, some rules => some ⟨name, rules, Dict.ofList others⟩
      | _, _ => none
    | _, _, _ => none
  | _ => none

def parseJson? (text : String) : Option SchemaDocument :=
  (Json.Raw.parse? text).bind (ofRaw? Json.nestingLimit)

open Yaml.Reader in
def nameOfYaml : Option Yaml.Node → Yaml.Reader (Option String)
  | none => return none
  | some node => do
    match ← optional node with
    | none => return none
    | some node => return some (← text node)

open Yaml.Reader in
def rulesOfYaml (depth : Nat) : Option Yaml.Node → Yaml.Reader (Option RuleBlock)
  | none => return none
  | some node => do
    match ← optional node with
    | none => return none
    | some node => return some (← RuleBlock.ofYaml depth node)

open Yaml.Reader in
def ofYaml : Option Yaml.Node → Yaml.Reader SchemaDocument
  | none => return empty
  | some root => do
    let (depth, fields) ← fields Yaml.nestingLimit root
    let name ← nameOfYaml (← sole? nameKey fields)
    let rules ← rulesOfYaml depth (← sole? rulesKey fields)
    let others ← (fields.filter fun field => !isInterpreted field.1).mapM fun (key, node) =>
      return (key, ← value .byValue depth node)
    return ⟨name, rules, Dict.ofList others⟩

def parseYaml? (text : String) : Option SchemaDocument :=
  (Yaml.parse? text).bind (Yaml.Reader.run? ofYaml)

def parse? : SchemaFormat → String → Option SchemaDocument
  | .json => parseJson?
  | .yaml => parseYaml?

end SchemaDocument

end RowPolicy
