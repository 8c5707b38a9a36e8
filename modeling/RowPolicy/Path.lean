/-!
# Paths

Paths are texts whose parts are separated by slashes. Empty parts and parts of a single dot say
nothing about what a path names.
-/

namespace RowPolicy

namespace Path

/-- The pieces of a text between its slashes, the first of which has been read up to here and is held
last character first. -/
def pieces (piece : List Char) : List Char → List (List Char)
  | [] => [piece.reverse]
  | c :: rest => if c = '/' then piece.reverse :: pieces [] rest else pieces (c :: piece) rest

def parts (path : String) : List String :=
  ((pieces [] path.toList).map String.ofList).filter fun part => part != "" && part != "."

def join (directory name : String) : String :=
  if name.toList.head? = some '/' ∨ directory = "" then name
  else if directory.toList.getLast? = some '/' then directory ++ name
  else directory ++ "/" ++ name

/-- The last part of a path, unless it leads upwards. -/
def fileName? (path : String) : Option String :=
  match (parts path).getLast? with
  | some ".." => none
  | name => name

/-- Splits a name before its last dot; a name whose only dot comes first is not split. -/
def splitName (name : String) : String × Option String :=
  let reversed := name.toList.reverse
  let tail := reversed.takeWhile (· != '.')
  match reversed.dropWhile (· != '.') with
  | _ :: c :: rest =>
    (String.ofList (c :: rest).reverse, some (String.ofList tail.reverse))
  | _ => (name, none)

def stem? (path : String) : Option String := (fileName? path).map fun name => (splitName name).1

def extension? (path : String) : Option String := (fileName? path).bind fun name => (splitName name).2

end Path

end RowPolicy
