import RowPolicy.Json.Token
import RowPolicy.Sha256

/-!
# Writing JSON

The compact form has no white space at all; the indented form puts every item and member on a line
of its own, two spaces deeper than its container. Members are written in the order listed.
-/

namespace RowPolicy

namespace Json

def joined (separator : List Char) : List (List Char) → List Char
  | [] => []
  | [text] => text
  | text :: rest => text ++ separator ++ joined separator rest

def boolText : Bool → List Char
  | true => ['t', 'r', 'u', 'e']
  | false => ['f', 'a', 'l', 's', 'e']

mutual

def compactChars : Json → List Char
  | .null => ['n', 'u', 'l', 'l']
  | .bool value => boolText value
  | .number value => value.text
  | .string value => stringText value
  | .array items => '[' :: (joined [','] (compactItems items) ++ [']'])
  | .object members => '{' :: (joined [','] (compactMembers members) ++ ['}'])

def compactItems : List Json → List (List Char)
  | [] => []
  | item :: items => compactChars item :: compactItems items

def compactMembers : List (String × Json) → List (List Char)
  | [] => []
  | (key, value) :: members => (stringText key ++ ':' :: compactChars value) :: compactMembers members

end

def compact (json : Json) : String := String.ofList json.compactChars

def newLine (depth : Nat) : List Char := '\n' :: List.replicate (2 * depth) ' '

/-- Lines between brackets, one for each text; nothing between the brackets when there is none. -/
def block (depth : Nat) (opening closing : Char) (texts : List (List Char)) : List Char :=
  match texts with
  | [] => [opening, closing]
  | texts =>
    opening :: newLine (depth + 1) ++ joined (',' :: newLine (depth + 1)) texts
      ++ newLine depth ++ [closing]

mutual

def indentedChars : Json → (depth : Nat) → List Char
  | .array items, depth => block depth '[' ']' (indentedItems items (depth + 1))
  | .object members, depth => block depth '{' '}' (indentedMembers members (depth + 1))
  | .null, _ => ['n', 'u', 'l', 'l']
  | .bool value, _ => boolText value
  | .number value, _ => value.text
  | .string value, _ => stringText value

def indentedItems : List Json → (depth : Nat) → List (List Char)
  | [], _ => []
  | item :: items, depth => indentedChars item depth :: indentedItems items depth

def indentedMembers : List (String × Json) → (depth : Nat) → List (List Char)
  | [], _ => []
  | (key, value) :: members, depth =>
    (stringText key ++ ':' :: ' ' :: indentedChars value depth) :: indentedMembers members depth

end

def indented (json : Json) : String := String.ofList (json.indentedChars 0)

def fingerprint (json : Json) : String := sha256 json.compact

end Json

end RowPolicy
