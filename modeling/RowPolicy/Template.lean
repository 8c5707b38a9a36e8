import RowPolicy.Rule.Basic

/-!
# Templates

A string in a rule is a literal unless it contains a doubled brace. With one, the whole string must
be a template: two opening braces, spaces, identifiers joined by dots, spaces, two closing braces.
Only a path of the principal's namespace and one attribute is a reference. A string that is no
template is refused with the offset of the farthest place that the grammar reached: where an
identifier had to stand, or where the text had to end, and zero when a pair of braces is missing.
-/

namespace RowPolicy

namespace Template

def occurs (pattern : List Char) : List Char → Bool
  | [] => pattern.isEmpty
  | c :: rest => pattern.isPrefixOf (c :: rest) || occurs pattern rest

def opening : List Char := ['{', '{']

def closing : List Char := ['}', '}']

/-- Whether a text contains either mark, so that it must be a template as a whole. -/
def isLike (text : String) : Bool :=
  occurs opening text.toList || occurs closing text.toList

def isIdentStart (c : Char) : Bool := c.isAlpha || c == '_'

def isIdentRest (c : Char) : Bool := c.isAlphanum || c == '_'

def ident? : List Char → Option (List Char × List Char)
  | [] => none
  | c :: rest =>
    if isIdentStart c then some (c :: rest.takeWhile isIdentRest, rest.dropWhile isIdentRest)
    else none

def skipSpaces (text : List Char) : List Char := text.dropWhile (· == ' ')

/-- The identifiers of a path after its first, what follows the path, and whether a dot was left
there without an identifier after it. At most as many identifiers are read as the fuel. -/
def segments : Nat → List Char → List (List Char) × List Char × Bool
  | 0, text => ([], text, false)
  | fuel + 1, '.' :: rest =>
    match ident? rest with
    | some (name, after) =>
      let (names, left, dangling) := segments fuel after
      (name :: names, left, dangling)
    | none => ([], '.' :: rest, true)
  | _ + 1, text => ([], text, false)

/-- The number of UTF-8 bytes of a text. -/
def byteLength : List Char → Nat
  | [] => 0
  | c :: rest => c.utf8Size + byteLength rest

/-- Reads a text as one template: the identifiers of its path, or the offset of the fault. -/
def path (text : List Char) : Except Nat (List (List Char)) :=
  let offsetOf (rest : List Char) := byteLength text - byteLength rest
  match opening.isPrefixOf text with
  | false => .error 0
  | true =>
    let start := skipSpaces (text.drop 2)
    match ident? start with
    | none => .error (offsetOf start)
    | some (first, after) =>
      let (others, rest, dangling) := segments after.length after
      if dangling then .error (offsetOf (rest.drop 1))
      else
        let tail := skipSpaces rest
        if closing.isPrefixOf tail then
          if (tail.drop 2).isEmpty then .ok (first :: others)
          else .error (offsetOf (tail.drop 2))
        else .error 0

def dotted : List (List Char) → List Char
  | [] => []
  | [name] => name
  | name :: names => name ++ '.' :: dotted names

end Template

inductive TemplateError
  /-- The string is no template; the grammar reached as far as the offset. -/
  | malformed (raw : String) (offset : Nat)
  /-- The path is no known attribute of the principal. -/
  | unknownReference (path : String)
deriving DecidableEq

namespace TemplateError

def fault (offset : Nat) : String :=
  "expected '\x7b\x7buser.<attribute>\x7d\x7d', invalid input at offset " ++ toString offset

def message : TemplateError → String
  | .malformed raw offset => "Malformed template '" ++ raw ++ "': " ++ fault offset
  | .unknownReference path => "Unknown template reference '" ++ path ++ "'"

end TemplateError

namespace Template

/-- Reads a string of a rule, without regard to which attributes exist. -/
def parse (raw : String) : Except TemplateError ValueSource :=
  if !isLike raw then .ok (.literal (.string raw))
  else
    match path raw.toList with
    | .error offset => .error (.malformed raw offset)
    | .ok [scope, name] =>
      if scope = principalNamespace.toList then .ok (.template ⟨String.ofList name⟩)
      else .error (.unknownReference (String.ofList (dotted [scope, name])))
    | .ok names => .error (.unknownReference (String.ofList (dotted names)))

end Template

structure Namespace where
  names : List String

namespace Namespace

/-- The attributes that every principal is taken to have, unless configured otherwise. -/
def standard : Namespace := ⟨["id", "email", "full_name", "role", "admin_level"]⟩

def contains (scope : Namespace) (name : String) : Bool := scope.names.contains name

def add (scope : Namespace) (name : String) : Namespace := ⟨scope.names ++ [name]⟩

def sorted (scope : Namespace) : List String :=
  (Dict.ofList (scope.names.map fun name => (name, ()))).keys

/-- Reads a string of a rule; a template must refer to an attribute of the namespace. -/
def resolve (scope : Namespace) (raw : String) : Except TemplateError ValueSource :=
  match Template.parse raw with
  | .ok (.template ref) =>
    if scope.contains ref.name then .ok (.template ref) else .error (.unknownReference ref.path)
  | answer => answer

end Namespace

end RowPolicy
