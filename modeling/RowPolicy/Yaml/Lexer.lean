import RowPolicy.Yaml.Token

/-!
# Tokens of YAML text

The lexer turns indentation into tokens for the start and the end of block collections. A key
before a colon is recognised only when the colon is reached: then a token for it is put in front of
the tokens it began with. Such a key stands on one line, within 1024 characters.
-/

namespace RowPolicy

namespace Yaml

structure KeyStart where
  /-- Whether nothing but a key may stand there. -/
  required : Bool
  /-- The number of tokens before it. -/
  position : Nat
  index : Nat
  line : Nat
  column : Nat

structure Lexer where
  cursor : Cursor
  /-- The column of the current block collection, minus one outside of any. -/
  indent : Int := -1
  /-- The columns of the enclosing block collections. -/
  outer : List Int := []
  /-- Whether a key may start here. -/
  keyAllowed : Bool := true
  /-- The last place where a key may have begun, in the innermost brackets. -/
  keyStart : Option KeyStart := none
  /-- The same for the enclosing brackets; there are as many as brackets are open. -/
  outerKeys : List (Option KeyStart) := []
  tokens : Array Token := #[]

namespace Lexer

def inFlow (l : Lexer) : Bool := !l.outerKeys.isEmpty

def emit (l : Lexer) (token : Token) : Lexer := { l with tokens := l.tokens.push token }

/-- Puts a token in front of all but the first few. -/
def emitAt (l : Lexer) (position : Nat) (token : Token) : Lexer :=
  { l with
    tokens := (l.tokens.extract 0 position).push token ++ l.tokens.extract position l.tokens.size }

def mark (l : Lexer) (token : Token) (width : Nat := 1) : Lexer :=
  { l.emit token with cursor := l.cursor.skip width }

def take (l : Lexer) (token : Token) (cursor : Cursor) : Lexer :=
  { l.emit token with cursor := cursor }

/-- Whether a key start is out of reach: on an earlier line, or too far back. -/
def isStale (l : Lexer) (start : KeyStart) : Bool :=
  start.line < l.cursor.line || start.index + 1024 < l.cursor.index

/-- Forgets a key start that is out of reach; it must not have been required. -/
def refresh (l : Lexer) : Option KeyStart → Option (Option KeyStart)
  | none => some none
  | some start =>
    if l.isStale start then if start.required then none else some none else some (some start)

def dropStale (l : Lexer) : Option Lexer := do
  let keyStart ← l.refresh l.keyStart
  let outerKeys ← l.outerKeys.mapM l.refresh
  some { l with keyStart, outerKeys }

/-- Forgets the key start of the innermost brackets; it must not have been required. -/
def dropKey (l : Lexer) : Option Lexer :=
  if l.keyStart.any KeyStart.required then none else some { l with keyStart := none }

/-- Notes that a key may begin here, where one is allowed. -/
def noteKey (l : Lexer) : Option Lexer :=
  if l.keyAllowed then do
    let l ← l.dropKey
    let c := l.cursor
    let required := !l.inFlow && l.indent == c.column
    some { l with keyStart := some ⟨required, l.tokens.size, c.index, c.line, c.column⟩ }
  else some l

/-- Enters a block collection at a column, unless brackets are open or it is no deeper than the
current one; its token goes to a position. -/
def indentTo (l : Lexer) (column position : Nat) (token : Token) : Lexer :=
  if l.inFlow || column ≤ l.indent then l
  else { l.emitAt position token with indent := column, outer := l.indent :: l.outer }

/-- The block collections that end when the text goes on at a column: how many, and what is left. -/
def closing (column : Int) : Int → List Int → Nat × Int × List Int
  | indent, [] => (0, indent, [])
  | indent, next :: outer =>
    if column < indent then
      let (count, left) := closing column next outer
      (count + 1, left)
    else (0, indent, next :: outer)

/-- Ends the block collections deeper than a column, unless brackets are open. -/
def outdentTo (l : Lexer) (column : Int) : Lexer :=
  if l.inFlow then l
  else
    let (count, indent, outer) := closing column l.indent l.outer
    { l with indent, outer, tokens := l.tokens ++ Array.replicate count Token.blockEnd }

/-- Passes over white space, comments and line ends in front of a token. A tab counts as white
space only where no key may start. -/
def skipGap : Nat → Lexer → Lexer
  | 0, l => l
  | fuel + 1, l =>
    let c := l.cursor
    let c := if c.index = 0 ∧ c.looksAt (Char.ofNat 0xfeff) then c.skip else c
    let tabs := l.inFlow || !l.keyAllowed
    let c := c.skipWhile fun char => char == ' ' || (tabs && char == '\t')
    let c := if c.looksAt '#' then c.skipWhile fun char => !isBreak char else c
    if c.sees isBreak then
      skipGap fuel { l with cursor := c.skipBreak, keyAllowed := l.keyAllowed || !l.inFlow }
    else { l with cursor := c }

/-- Ends all block collections, as a directive or a mark between documents does. -/
def toTop (l : Lexer) : Option Lexer :=
  ((l.outdentTo (-1)).dropKey).map ({ · with keyAllowed := false })

def finish (l : Lexer) : Option Lexer := l.toTop.map (·.emit .streamEnd)

def directive (l : Lexer) : Option Lexer := do
  let l ← l.toTop
  let (token, c) ← directive? l.cursor
  some (l.take token c)

def documentMark (l : Lexer) (token : Token) : Option Lexer := l.toTop.map (·.mark token 3)

def open? (l : Lexer) (token : Token) : Option Lexer := do
  let l ← l.noteKey
  some { l.mark token with
    keyAllowed := true, keyStart := none, outerKeys := l.keyStart :: l.outerKeys }

def close? (l : Lexer) (token : Token) : Option Lexer := do
  let l ← l.dropKey
  let l := { l.mark token with keyAllowed := false }
  match l.outerKeys with
  | [] => some l
  | keyStart :: outerKeys => some { l with keyStart, outerKeys }

def flowEntry (l : Lexer) : Option Lexer := do
  let l ← l.dropKey
  some { l.mark .flowEntry with keyAllowed := true }

def blockEntry (l : Lexer) : Option Lexer := do
  if !l.inFlow && !l.keyAllowed then none
  let l := l.indentTo l.cursor.column l.tokens.size .blockSequence
  let l ← l.dropKey
  some { l.mark .blockEntry with keyAllowed := true }

def explicitKey (l : Lexer) : Option Lexer := do
  if !l.inFlow && !l.keyAllowed then none
  let l := l.indentTo l.cursor.column l.tokens.size .blockMapping
  let l ← l.dropKey
  some { l.mark .key with keyAllowed := !l.inFlow }

def value (l : Lexer) : Option Lexer :=
  match l.keyStart with
  | some start =>
    let l := l.emitAt start.position .key
    let l := l.indentTo start.column start.position .blockMapping
    some { l.mark .value with keyStart := none, keyAllowed := false }
  | none =>
    if !l.inFlow && !l.keyAllowed then none
    else
      let l := l.indentTo l.cursor.column l.tokens.size .blockMapping
      some { l.mark .value with keyAllowed := !l.inFlow }

/-- A token that may begin a key and after which none may begin. -/
def content (l : Lexer) (read : Lexer → Option (Token × Cursor)) : Option Lexer := do
  let l ← l.noteKey
  let (token, c) ← read l
  some { l.take token c with keyAllowed := false }

def blockScalar (l : Lexer) (style : Style) : Option Lexer := do
  let l ← l.dropKey
  let (text, c) ← block? (style == .literal) l.indent l.cursor
  some { l.take (.scalar style (String.ofList text)) c with keyAllowed := true }

def quotedScalar (l : Lexer) (style : Style) : Option Lexer :=
  l.content fun l => (quoted? (style == .singleQuoted) l.cursor).map fun (text, c) =>
    (.scalar style (String.ofList text), c)

/-- A plain scalar; after one that is followed by line ends a key may begin. -/
def plainScalar (l : Lexer) : Option Lexer := do
  let l ← l.noteKey
  let (text, spansLines, c) ← plain? l.inFlow (l.indent + 1).toNat l.cursor
  some { l.take (.scalar .plain (String.ofList text)) c with keyAllowed := spansLines }

def indicators : List Char :=
  ['-', '?', ':', ',', '[', ']', '{', '}', '#', '&', '*', '!', '|', '>', '\x27', '"', '%', '@', '\x60']

/-- Whether a plain scalar starts here: not at an indicator, except at a dash before something, and
outside brackets at a question mark or a colon before something. -/
def startsPlain (l : Lexer) : Bool :=
  let c := l.cursor
  (c.peek? 0).any fun char =>
    !(indicators.contains char || isBlank char || isBreak char)
      || (char == '-' && !c.sees isBlank 1)
      || (!l.inFlow && (char == '?' || char == ':') && !c.seesGap 1)

def token (l : Lexer) (first : Char) : Option Lexer :=
  let c := l.cursor
  if c.column = 0 ∧ first = '%' then l.directive
  else if c.atMarker '-' then l.documentMark .documentStart
  else if c.atMarker '.' then l.documentMark .documentEnd
  else if first = '[' then l.open? .openBracket
  else if first = '{' then l.open? .openBrace
  else if first = ']' then l.close? .closeBracket
  else if first = '}' then l.close? .closeBrace
  else if first = ',' then l.flowEntry
  else if first = '-' ∧ c.seesGap 1 then l.blockEntry
  else if first = '?' ∧ (l.inFlow ∨ c.seesGap 1) then l.explicitKey
  else if first = ':' ∧ (l.inFlow ∨ c.seesGap 1) then l.value
  else if first = '*' then
    l.content fun l => (anchorName? l.cursor.skip).map fun (name, c) => (.reference name, c)
  else if first = '&' then
    l.content fun l => (anchorName? l.cursor.skip).map fun (name, c) => (.anchor name, c)
  else if first = '!' then l.content fun l => tag? l.inFlow l.cursor
  else if first = '|' ∧ !l.inFlow then l.blockScalar .literal
  else if first = '>' ∧ !l.inFlow then l.blockScalar .folded
  else if first = '\x27' then l.quotedScalar .singleQuoted
  else if first = '"' then l.quotedScalar .doubleQuoted
  else if l.startsPlain then l.plainScalar
  else none

def run : Nat → Lexer → Option (Array Token)
  | 0, _ => none
  | fuel + 1, l =>
    match (skipGap (l.cursor.rest.length + 1) l).dropStale with
    | none => none
    | some l =>
      let l := l.outdentTo l.cursor.column
      match l.cursor.rest.head? with
      | none => l.finish.map Lexer.tokens
      | some first =>
        match l.token first with
        | some next => run fuel next
        | none => none

end Lexer

/-- The tokens of a text, the last of which is the end of the stream. -/
def tokens? (text : List Char) : Option (List Token) :=
  if text.all isAllowed then
    (Lexer.run (text.length + 2) { cursor := { rest := text } }).map Array.toList
  else none

end Yaml

end RowPolicy
