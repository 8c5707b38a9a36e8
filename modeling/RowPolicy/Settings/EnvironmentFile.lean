import RowPolicy.Settings.Basic
import RowPolicy.Text.Alphanumeric

/-!
# Environment files

An environment file sets variables, one on a line: a name, an equals sign and a value. Single
quotes keep a value as it is, double quotes allow escapes, a dollar sign puts in the value of
another variable, and a value in quotes may go on for several lines. Variables are set in order; a
variable that is set already keeps its value, and everything after the first line that makes no
sense is left out.
-/

namespace RowPolicy

namespace EnvironmentFile

/-! ### Lines -/

/-- What the characters read so far mean for the next one. -/
inductive Place
  | plain
  | blank
  | escape
  | single
  | singleEscape
  | double
  | doubleEscape
deriving DecidableEq

/-- The place after a character, or nothing if it begins a comment. -/
def Place.next? : Place → Char → Option Place
  | .plain, c =>
    if c = '\\' then some .escape
    else if c = '"' then some .double
    else if c = '\'' then some .single
    else if Text.isBlank c ∧ c ≠ '\n' ∧ c ≠ '\r' then some .blank
    else some .plain
  | .blank, c =>
    if c = '#' then none
    else if c = '\\' then some .escape
    else if c = '"' then some .double
    else if c = '\'' then some .single
    else some .plain
  | .escape, _ => some .plain
  | .double, c =>
    if c = '\\' then some .doubleEscape else if c = '"' then some .plain else some .double
  | .doubleEscape, _ => some .double
  | .single, c =>
    if c = '\\' then some .singleEscape else if c = '\'' then some .plain else some .single
  | .singleEscape, _ => some .single

/-- How a line ends: at a place, or with a comment before which there are some bytes. -/
inductive LineEnd
  | reached (place : Place)
  | comment (bytes : Nat)

def lineEnd (place : Place) (bytes : Nat) : List Char → LineEnd
  | [] => .reached place
  | c :: rest =>
    match place.next? c with
    | none => .comment bytes
    | some place => lineEnd place (bytes + c.utf8Size) rest

/-- The beginning of a text that takes a number of bytes, or the whole text if it is shorter;
nothing if a character would have to be cut. -/
def firstBytes? : (bytes : Nat) → List Char → Option (List Char)
  | 0, _ => some []
  | _, [] => some []
  | bytes, c :: rest =>
    if bytes < c.utf8Size then none else (firstBytes? (bytes - c.utf8Size) rest).map (c :: ·)

def withoutLineEnd (text : List Char) : List Char :=
  match text.reverse with
  | '\n' :: '\r' :: rest => rest.reverse
  | '\n' :: rest => rest.reverse
  | _ => text

/-- Joins lines for as long as quotes are open, and takes comments off. A comment after joined
lines is cut where it starts in its own line. Lines end before one that is no text or never ends;
a line is missing if the cut falls inside a character. -/
def joinLines (place : Place) (before : List Char) :
    List (Option (List Char)) → List (Option (List Char))
  | [] | none :: _ => []
  | some line :: lines =>
    let text := before ++ line
    if (Text.trimStart text).head? = some '#' then some [] :: joinLines .plain [] lines
    else
      match lineEnd place 0 line with
      | .comment bytes => firstBytes? bytes text :: joinLines .plain [] lines
      | .reached .plain => some (withoutLineEnd text) :: joinLines .plain [] lines
      | .reached place => joinLines place text lines

def rawLines : List UInt8 → List (List UInt8)
  | [] => []
  | byte :: rest =>
    if byte = 10 then [byte] :: rawLines rest
    else
      match rawLines rest with
      | [] => [[byte]]
      | line :: lines => (byte :: line) :: lines

def withoutMark : List UInt8 → List UInt8
  | 0xef :: 0xbb :: 0xbf :: rest => rest
  | bytes => bytes

def lines (content : ByteArray) : List (Option (List Char)) :=
  joinLines .plain [] ((rawLines (withoutMark content.data.toList)).map fun line =>
    (String.fromUTF8? ⟨line.toArray⟩).map String.toList)

/-! ### Values -/

/-- The value of a variable, empty if it is not set. -/
def valueOf (environment : Environment) (name : List Char) : List Char :=
  ((environment.get? (String.ofList name)).getD "").toList

/-- What the next character of a value belongs to. Names are kept with the last character first. -/
inductive Mode
  | bare
  | single
  | escape
  | name (reversed : List Char)
  | bracedName (reversed : List Char)
  | after
deriving DecidableEq

/-- Reads a value. Inside double quotes blanks end nothing. -/
def valueFrom? (environment : Environment) (mode : Mode) (quoted : Bool) :
    List Char → Option (List Char)
  | [] =>
    match mode with
    | .single | .bracedName _ => none
    | .name reversed => if quoted then none else some (valueOf environment reversed.reverse)
    | .bare | .escape | .after => if quoted then none else some []
  | c :: rest =>
    match mode with
    | .after =>
      if c = ' ' ∨ c = '\t' then valueFrom? environment .after quoted rest
      else if c = '#' then some []
      else none
    | .escape =>
      if c = '\\' ∨ c = '\'' ∨ c = '"' ∨ c = '$' ∨ c = ' ' then
        (valueFrom? environment .bare quoted rest).map (c :: ·)
      else if c = 'n' then (valueFrom? environment .bare quoted rest).map ('\n' :: ·)
      else none
    | .single =>
      if c = '\'' then valueFrom? environment .bare quoted rest
      else (valueFrom? environment .single quoted rest).map (c :: ·)
    | .name reversed =>
      if Text.isAlphanumeric c then valueFrom? environment (.name (c :: reversed)) quoted rest
      else if c = '\x7b' ∧ reversed.isEmpty then
        valueFrom? environment (.bracedName []) quoted rest
      else
        let value := valueOf environment reversed.reverse
        if c = '$' then (valueFrom? environment (.name []) quoted rest).map (value ++ ·)
        else (valueFrom? environment .bare quoted rest).map (value ++ c :: ·)
    | .bracedName reversed =>
      if c = '\x7d' then
        (valueFrom? environment .bare quoted rest).map (valueOf environment reversed.reverse ++ ·)
      else valueFrom? environment (.bracedName (c :: reversed)) quoted rest
    | .bare =>
      if c = '$' then valueFrom? environment (.name []) quoted rest
      else if c = '\\' then valueFrom? environment .escape quoted rest
      else if c = '"' then valueFrom? environment .bare (!quoted) rest
      else if quoted then (valueFrom? environment .bare quoted rest).map (c :: ·)
      else if c = '\'' then valueFrom? environment .single quoted rest
      else if c = ' ' ∨ c = '\t' then valueFrom? environment .after quoted rest
      else (valueFrom? environment .bare quoted rest).map (c :: ·)

/-! ### Assignments -/

/-- A line that makes sense: one that says nothing, or an assignment. -/
inductive Line
  | silent
  | assignment (name value : String)
deriving DecidableEq

def isNameCharacter (c : Char) : Bool := c.isAlphanum || c == '_' || c == '.'

def name? (text : List Char) : Option (String × List Char) :=
  match text with
  | c :: _ =>
    if c.isAlpha ∨ c = '_' then
      some (String.ofList (text.takeWhile isNameCharacter), text.dropWhile isNameCharacter)
    else none
  | [] => none

def target? (text : List Char) : Option (String × List Char) := do
  let (name, rest) ← name? text
  match Text.trimStart rest with
  | '=' :: rest => some (name, rest)
  | _ => none

/-- Splits the name and the equals sign of an assignment off; the word export may come first. -/
def assigned? (text : List Char) : Option (String × List Char) :=
  match target? text with
  | some target => some target
  | none =>
    match name? text with
    | some ("export", rest) => target? (Text.trimStart rest)
    | _ => none

def line? (environment : Environment) (line : List Char) : Option Line :=
  match Text.trim line with
  | [] | '#' :: _ => some .silent
  | text => do
    let (name, rest) ← assigned? text
    match Text.trimStart rest with
    | [] | '#' :: _ => some (.assignment name "")
    | text =>
      let value ← valueFrom? environment .bare false text
      some (.assignment name (String.ofList value))

/-- Sets a variable that is not set yet. -/
def assign (environment : Environment) (name value : String) : Environment :=
  if environment.contains name then environment else environment.insert name value

/-- Sets the variables of lines. Nothing can be done with a missing line, nor with a value that has
a null character. -/
def assignAll (environment : Environment) : List (Option (List Char)) → Option Environment
  | [] => some environment
  | none :: _ => none
  | some line :: lines =>
    match line? environment line with
    | none => some environment
    | some .silent => assignAll environment lines
    | some (.assignment name value) =>
      if !environment.contains name && value.toList.contains '\x00' then none
      else assignAll (assign environment name value) lines

def extend? (environment : Environment) (content : ByteArray) : Option Environment :=
  assignAll environment (lines content)

/-- The names that a file may look up: its runs of name characters, and its runs of letters and
digits. -/
def mentioned (content : ByteArray) : List String :=
  let text := (lines content).flatMap fun line => line.getD [] ++ ['\n']
  let runs (isPart : Char → Bool) : List String :=
    (Text.splitWhen (fun c => !isPart c) text).map String.ofList
  ((runs isNameCharacter ++ runs Text.isAlphanumeric).filter (· != "")).eraseDups

end EnvironmentFile

end RowPolicy
