import RowPolicy.Yaml.Scalar

/-!
# YAML tokens

The tokens of a YAML stream, and the readers of those that carry a name: directives, anchors and
tags.
-/

namespace RowPolicy

namespace Yaml

inductive Token
  | streamEnd
  | version (major minor : Nat)
  | handle (name expansion : String)
  | documentStart
  | documentEnd
  | blockSequence
  | blockMapping
  | blockEnd
  | openBracket
  | closeBracket
  | openBrace
  | closeBrace
  | blockEntry
  | flowEntry
  | key
  | value
  | reference (name : String)
  | anchor (name : String)
  | tag (handle suffix : String)
  | scalar (style : Style) (text : String)
deriving DecidableEq

def anchorName? (c : Cursor) : Option (String × Cursor) :=
  let name := c.rest.takeWhile isWord
  let c := c.skip name.length
  let ends := c.seesGap || c.sees fun char =>
    char == '?' || char == ':' || char == ',' || char == ']' || char == '}' || char == '%'
      || char == '@' || char == '\x60'
  if name.isEmpty || !ends then none else some (String.ofList name, c)

def isTagChar (wide : Bool) (c : Char) : Bool :=
  isWord c || [';', '/', '?', ':', '@', '&', '=', '+', '$', '.', '!', '~', '*', '\x27', '(', ')'].contains c
    || (wide && [',', '[', ']'].contains c)

/-- The bytes that percent escapes spell, as many as stand in a row, and the text after them. -/
def percentBytes? : List Char → Option (List UInt8 × List Char)
  | '%' :: rest =>
    match rest with
    | a :: b :: rest =>
      match Text.hexValue? a, Text.hexValue? b, percentBytes? rest with
      | some a, some b, some (bytes, after) => some (UInt8.ofNat (a * 16 + b) :: bytes, after)
      | _, _, _ => none
    | _ => none
  | rest => some ([], rest)

/-- Reads the characters of a tag; escaped bytes in a row must be UTF-8. Returns also how many
characters the tag takes. -/
def tagChars? (wide : Bool) : Nat → List Char → Option (List Char × Nat)
  | 0, _ => some ([], 0)
  | fuel + 1, text =>
    match text with
    | '%' :: _ =>
      match percentBytes? text with
      | none => none
      | some (bytes, after) =>
        match String.fromUTF8? ⟨bytes.toArray⟩, tagChars? wide fuel after with
        | some decoded, some (more, count) =>
          some (decoded.toList ++ more, text.length - after.length + count)
        | _, _ => none
    | c :: rest =>
      if isTagChar wide c then
        (tagChars? wide fuel rest).map fun (more, count) => (c :: more, count + 1)
      else some ([], 0)
    | [] => some ([], 0)

def readTagChars? (wide : Bool) (c : Cursor) : Option (List Char × Cursor) :=
  (tagChars? wide c.rest.length c.rest).map fun (chars, count) => (chars, c.skip count)

/-- Reads an exclamation mark, word characters, and a second mark if there is one. -/
def tagHandle? (c : Cursor) : Option (List Char × Cursor) :=
  if !c.looksAt '!' then none
  else
    let word := (c.rest.drop 1).takeWhile isWord
    let c := c.skip (1 + word.length)
    if c.looksAt '!' then some ('!' :: word ++ ['!'], c.skip) else some ('!' :: word, c)

/-- Reads a tag: verbatim between angle brackets, or a handle and a suffix. -/
def tag? (inFlow : Bool) (c : Cursor) : Option (Token × Cursor) := do
  let (handle, suffix, c) ←
    if c.looksAt '<' 1 then do
      let (suffix, c) ← readTagChars? true (c.skip 2)
      if suffix.isEmpty || !c.looksAt '>' then none
      some ([], suffix, c.skip)
    else do
      let (handle, c) ← tagHandle? c
      if 1 < handle.length ∧ handle.getLast? = some '!' then do
        let (suffix, c) ← readTagChars? false c
        if suffix.isEmpty then none
        some (handle, suffix, c)
      else do
        let (more, c) ← readTagChars? false c
        match handle.drop 1 ++ more with
        | [] => some ([], ['!'], c)
        | suffix => some (['!'], suffix, c)
  if c.seesGap || (inFlow && c.looksAt ',') then
    some (.tag (String.ofList handle) (String.ofList suffix), c)
  else none

/-- Reads a part of a version number, of at most nine digits. -/
def versionPart? (c : Cursor) : Option (Nat × Cursor) :=
  let digits := c.rest.takeWhile Char.isDigit
  if digits.isEmpty || 9 < digits.length then none
  else some (Json.digitsValue digits, c.skip digits.length)

def directive? (c : Cursor) : Option (Token × Cursor) := do
  let c := c.skip
  let name := c.rest.takeWhile isWord
  let c := c.skip name.length
  if name.isEmpty || !c.seesGap then none
  let (token, c) ←
    if name = "YAML".toList then do
      let (major, c) ← versionPart? (c.skipWhile isBlank)
      if !c.looksAt '.' then none
      let (minor, c) ← versionPart? c.skip
      some (Token.version major minor, c)
    else if name = "TAG".toList then do
      let (handle, c) ← tagHandle? (c.skipWhile isBlank)
      if handle ≠ ['!'] ∧ (handle.length < 2 ∨ handle.getLast? ≠ some '!') then none
      if !c.sees isBlank then none
      let (expansion, c) ← readTagChars? true (c.skipWhile isBlank)
      if expansion.isEmpty || !c.seesGap then none
      some (Token.handle (String.ofList handle) (String.ofList expansion), c)
    else none
  let c := c.skipWhile isBlank
  let c := if c.looksAt '#' then c.skipWhile fun char => !isBreak char else c
  if !c.seesEnd then none
  some (token, c.skipBreak)

end Yaml

end RowPolicy
