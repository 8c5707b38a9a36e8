import RowPolicy.Json.Token

/-!
# JSON as written

A `Raw` tree is a JSON text before any of its values has been interpreted: members stand in the
order written, with repetitions, and numbers, strings or keys that stand for nothing are kept. The
reader is an automaton over tokens with the open containers on a stack. `Raw.value?` interprets
a tree: of repeated keys the last one wins, and nesting is limited.
-/

namespace RowPolicy

namespace Json

/-- A JSON text as a tree, as written. -/
inductive Raw
  | null
  | bool (value : Bool)
  | number (value : Option Number)
  | string (value : Option String)
  | array (items : List Raw)
  | object (members : List (Option String × Raw))

namespace Raw

instance : Inhabited Raw := ⟨null⟩

/-- An open container, with what it holds so far, last first, and the key being given a value. -/
inductive Frame
  | item (before : List Raw)
  | member (before : List (Option String × Raw)) (key : Option String)

/-- What the reader has seen last, with the open containers, innermost first. -/
inductive State
  /-- A value must follow. -/
  | value (stack : List Frame)
  /-- An array has been opened: a value or its end follows. -/
  | opened (stack : List Frame)
  /-- An object's key follows, or the end of an object that has just been opened. -/
  | key (stack : List Frame) (before : List (Option String × Raw)) (first : Bool)
  /-- A colon must follow the key. -/
  | colon (stack : List Frame) (before : List (Option String × Raw)) (key : Option String)
  /-- A value is complete. -/
  | ended (stack : List Frame) (value : Raw)

/-- A token where a value must stand. -/
def begin? (stack : List Frame) : Token → Option State
  | .null => some (.ended stack .null)
  | .bool value => some (.ended stack (.bool value))
  | .number value => some (.ended stack (.number value))
  | .string value => some (.ended stack (.string value))
  | .openBracket => some (.opened stack)
  | .openBrace => some (.key stack [] true)
  | _ => none

def step? : State → Token → Option State
  | .value stack, token => begin? stack token
  | .opened stack, .closeBracket => some (.ended stack (.array []))
  | .opened stack, token => begin? (.item [] :: stack) token
  | .key stack before _, .string key => some (.colon stack before key)
  | .key stack _ true, .closeBrace => some (.ended stack (.object []))
  | .colon stack before key, .colon => some (.value (.member before key :: stack))
  | .ended (.item before :: stack) value, .comma => some (.value (.item (value :: before) :: stack))
  | .ended (.item before :: stack) value, .closeBracket =>
    some (.ended stack (.array (value :: before).reverse))
  | .ended (.member before key :: stack) value, .comma =>
    some (.key stack ((key, value) :: before) false)
  | .ended (.member before key :: stack) value, .closeBrace =>
    some (.ended stack (.object ((key, value) :: before).reverse))
  | _, _ => none

/-- The tree of a list of tokens, when the tokens are exactly one value. -/
def ofTokens? (tokens : List Token) : Option Raw :=
  match tokens.foldlM step? (.value []) with
  | some (.ended [] value) => some value
  | _ => none

def parse? (text : String) : Option Raw :=
  (tokens? text.toList).bind ofTokens?

mutual

/-- The value of a tree whose containers nest at most as deep as the limit. -/
def value? : Raw → (limit : Nat) → Option Json
  | .null, _ => some .null
  | .bool value, _ => some (.bool value)
  | .number value, _ => value.map .number
  | .string value, _ => value.map .string
  | .array items, limit =>
    if limit = 0 then none else (values? items (limit - 1)).map .array
  | .object members, limit =>
    if limit = 0 then none
    else (memberValues? members (limit - 1)).map fun members => ofDict (Dict.ofList members)

def values? : List Raw → (limit : Nat) → Option (List Json)
  | [], _ => some []
  | item :: items, limit =>
    match value? item limit, values? items limit with
    | some value, some values => some (value :: values)
    | _, _ => none

def memberValues? : List (Option String × Raw) → (limit : Nat) → Option (List (String × Json))
  | [], _ => some []
  | (key, member) :: members, limit =>
    match key, value? member limit, memberValues? members limit with
    | some key, some value, some values => some ((key, value) :: values)
    | _, _, _ => none

end

end Raw

/-- The deepest nesting of containers that readers follow. -/
def nestingLimit : Nat := 127

def parse? (text : String) : Option Json :=
  (Raw.parse? text).bind (·.value? nestingLimit)

end Json

end RowPolicy
