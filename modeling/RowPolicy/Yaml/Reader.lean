import RowPolicy.Yaml.Node
import RowPolicy.Yaml.Plain

/-!
# Reading values out of YAML

Readers look at nodes through references, of which they follow a limited number, and enter a
limited number of nested collections. What a scalar means depends on what is asked for: its text,
a truth value, a count, or whatever value it spells.
-/

namespace RowPolicy

namespace Yaml

/-- A reader of nodes of a document; the state is the number of references followed so far. -/
abbrev Reader (α : Type) := ReaderT Document (StateT Nat Option) α

/-- The deepest nesting of collections that readers enter. -/
def nestingLimit : Nat := 128

namespace Tag

def null : String := "tag:yaml.org,2002:null"
def bool : String := "tag:yaml.org,2002:bool"
def int : String := "tag:yaml.org,2002:int"
def float : String := "tag:yaml.org,2002:float"

/-- Whether a tag names a kind of value that only an application knows. -/
def isLocal (tag : Option String) : Bool := tag.any fun t => t.toList.head? == some '!'

end Tag

namespace Reader

def run? {α : Type} (reader : Option Node → Reader α) (document : Document) : Option α :=
  ((reader document.root document).run 0).map Prod.fst

/-- The node that a node means: itself, or what it refers to. -/
def target : Node → Reader Node
  | .reference number => do
    let document ← read
    modify (· + 1)
    if document.limit < (← get) then failure
    document.anchored.lookup number
  | node => pure node

def text (node : Node) : Reader String := do
  match ← target node with
  | .scalar _ _ _ text => return text
  | _ => failure

/-- Whether a scalar is written without quotes, or as a literal block with a tag for what is asked
for. -/
def isBare (tagWanted : String) : Node → Bool
  | .scalar _ _ .plain _ => true
  | .scalar _ tag .literal _ => tag == some tagWanted
  | _ => false

def bool (node : Node) : Reader Bool := do
  let node ← target node
  if !isBare Tag.bool node then failure
  boolOf? (← text node)

def count (node : Node) : Reader UInt64 := do
  let node ← target node
  if !isBare Tag.int node then failure
  countOf? (← text node)

/-- Reads a node that may say nothing: an unwritten or null plain scalar does. -/
def optional (node : Node) : Reader (Option Node) := do
  let node ← target node
  match node with
  | .scalar _ tag .plain text =>
    if tag = some Tag.null then
      if isNullText text then return none else failure
    else if tag.isNone ∧ (text = "" ∨ isNullText text) then return none
    else return some node
  | _ => return some node

/-- Whether a scalar is not written at all, which also counts as an empty collection. -/
def isUnwritten : Node → Bool
  | .scalar _ _ .plain "" => true
  | _ => false

def items (depth : Nat) (node : Node) : Reader (Nat × List Node) := do
  let node ← target node
  match node, depth with
  | .sequence _ _ items, depth + 1 => return (depth, items)
  | _, _ => if isUnwritten node then return (depth, []) else failure

def members (depth : Nat) (node : Node) : Reader (Nat × List (Node × Node)) := do
  let node ← target node
  match node, depth with
  | .mapping _ _ members, depth + 1 => return (depth, members)
  | _, _ => if isUnwritten node then return (depth, []) else failure

def fields (depth : Nat) (node : Node) : Reader (Nat × List (String × Node)) := do
  let (depth, members) ← members depth node
  let fields ← members.mapM fun (key, value) => return (← text key, value)
  return (depth, fields)

def scalarValue? (tag : Option String) (style : Style) (text : String) : Option Json :=
  if Tag.isLocal tag then none
  else if tag = some Tag.bool then (boolOf? text).map .bool
  else if tag = some Tag.int then (wholeOf? text).join
  else if tag = some Tag.float then floatOf? text
  else if tag = some Tag.null then if isNullText text then some .null else none
  else if tag.isNone ∧ style = .plain then plainValue? text
  else some (.string text)

/-- How the keys of a mapping become strings: by their texts, or by their values, which then must
be strings. -/
inductive Keys
  | byText
  | byValue

def key (keys : Keys) (node : Node) : Reader String := do
  match keys, ← target node with
  | .byText, .scalar _ _ _ text => return text
  | .byValue, .scalar _ tag style text =>
    match scalarValue? tag style text with
    | some (.string text) => return text
    | _ => failure
  | _, _ => failure

/-- Reads a value, with the reader for the parts of a collection if one may be entered. -/
def valueWith (keys : Keys) (part : Option (Node → Reader Json)) (node : Node) : Reader Json := do
  match ← target node, part with
  | .scalar _ tag style text, _ => scalarValue? tag style text
  | .sequence _ tag items, some part =>
    if Tag.isLocal tag then failure
    return .array (← items.mapM part)
  | .mapping _ tag members, some part =>
    if Tag.isLocal tag then failure
    let members ← members.mapM fun (name, value) => return (← key keys name, ← part value)
    return Json.ofDict (Dict.ofList members)
  | _, _ => failure

/-- Reads a value whose collections nest at most as deep as given. -/
def value (keys : Keys) : (depth : Nat) → Node → Reader Json
  | 0 => valueWith keys none
  | depth + 1 => valueWith keys (some (value keys depth))

end Reader

end Yaml

end RowPolicy
