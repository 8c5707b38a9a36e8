/-!
# Reading YAML text

A cursor is the rest of a text together with the place reached in it. Lines end with a line feed, a
carriage return, both in that order, or one of three further line separators.
-/

namespace RowPolicy

namespace Yaml

def isAllowed (c : Char) : Bool :=
  let n := c.toNat
  n == 0x09 || n == 0x0a || n == 0x0d || (0x20 ≤ n && n ≤ 0x7e) || n == 0x85
    || (0xa0 ≤ n && n ≤ 0xd7ff) || (0xe000 ≤ n && n ≤ 0xfffd) || 0x10000 ≤ n

def isBreak (c : Char) : Bool :=
  c == '\n' || c == '\r' || c.toNat == 0x85 || c.toNat == 0x2028 || c.toNat == 0x2029

def isBlank (c : Char) : Bool := c == ' ' || c == '\t'

def isWord (c : Char) : Bool := c.isAlphanum || c == '_' || c == '-'

/-- The rest of a text, and how much of it, how many lines and how many characters of the current
line have been passed. -/
structure Cursor where
  rest : List Char
  index : Nat := 0
  line : Nat := 0
  column : Nat := 0

namespace Cursor

def peek? (c : Cursor) (ahead : Nat) : Option Char := c.rest[ahead]?

def looksAt (c : Cursor) (char : Char) (ahead : Nat := 0) : Bool := c.peek? ahead == some char

def sees (c : Cursor) (cls : Char → Bool) (ahead : Nat := 0) : Bool := (c.peek? ahead).any cls

def atEnd (c : Cursor) : Bool := c.rest.isEmpty

def seesEnd (c : Cursor) (ahead : Nat := 0) : Bool := (c.peek? ahead).all isBreak

def seesGap (c : Cursor) (ahead : Nat := 0) : Bool :=
  (c.peek? ahead).all fun char => isBlank char || isBreak char

def skip (c : Cursor) (count : Nat := 1) : Cursor :=
  { c with rest := c.rest.drop count, index := c.index + count, column := c.column + count }

/-- Passes over the characters of a class, which holds no line ends. -/
def skipWhile (c : Cursor) (cls : Char → Bool) : Cursor :=
  c.skip (c.rest.takeWhile cls).length

/-- Passes over a line end; returns it as it counts in a scalar. -/
def readBreak (c : Cursor) : List Char × Cursor :=
  match c.rest with
  | '\r' :: '\n' :: rest => (['\n'], ⟨rest, c.index + 2, c.line + 1, 0⟩)
  | char :: rest =>
    if isBreak char then
      let kept := if char.toNat = 0x2028 ∨ char.toNat = 0x2029 then char else '\n'
      ([kept], ⟨rest, c.index + 1, c.line + 1, 0⟩)
    else ([], c)
  | [] => ([], c)

def skipBreak (c : Cursor) : Cursor := c.readBreak.2

/-- Whether a line starts here with three of a character that stand alone. -/
def atMarker (c : Cursor) (char : Char) : Bool :=
  c.column == 0 && c.looksAt char && c.looksAt char 1 && c.looksAt char 2 && c.seesGap 3

def atDocumentMarker (c : Cursor) : Bool := c.atMarker '-' || c.atMarker '.'

end Cursor

end Yaml

end RowPolicy
