import RowPolicy.Yaml.Cursor
import RowPolicy.Json.Token

/-!
# YAML scalars

The five ways to write a scalar: plain, in single or double quotes, and as a literal or folded
block. Each reader starts where the scalar starts and returns its content and the cursor behind it.
-/

namespace RowPolicy

namespace Yaml

inductive Style
  | plain
  | singleQuoted
  | doubleQuoted
  | literal
  | folded
deriving DecidableEq

/-- White space inside a scalar: blanks of one line or, across lines, the first line end and the
further ones. -/
structure Gap where
  blanks : List Char := []
  spansLines : Bool := false
  first : List Char := []
  more : List Char := []

namespace Gap

/-- What white space counts for: a single line end becomes a space, further ones stay. -/
def folded (gap : Gap) : List Char :=
  if !gap.spansLines then gap.blanks
  else if gap.first = ['\n'] then if gap.more.isEmpty then [' '] else gap.more
  else gap.first ++ gap.more

/-- Reads white space and line ends. Blanks after a line end do not count; a tab there is refused
in columns before `tabLimit`. -/
def read? (tabLimit : Nat) : Nat → Gap → Cursor → Option (Gap × Cursor)
  | 0, gap, c => some (gap, c)
  | fuel + 1, gap, c =>
    match c.rest with
    | [] => some (gap, c)
    | char :: _ =>
      if isBlank char then
        if gap.spansLines then
          if char = '\t' ∧ c.column < tabLimit then none else read? tabLimit fuel gap c.skip
        else read? tabLimit fuel { gap with blanks := gap.blanks ++ [char] } c.skip
      else if isBreak char then
        let (kept, next) := c.readBreak
        if gap.spansLines then read? tabLimit fuel { gap with more := gap.more ++ kept } next
        else read? tabLimit fuel { gap with blanks := [], spansLines := true, first := kept } next
      else some (gap, c)

end Gap

def isFlowMark (c : Char) : Bool := c == ',' || c == '[' || c == ']' || c == '{' || c == '}'

/-- Reads the characters of a plain scalar up to white space or an indicator. A colon directly
before a bracket's mark is refused inside brackets. -/
def plainRun? (inFlow : Bool) : List Char → Option (List Char)
  | [] => some []
  | c :: rest =>
    if isBlank c || isBreak c then some []
    else
      let next := rest.head?
      if inFlow && c == ':' && next.any (fun n => isFlowMark n || n == '?') then none
      else if c == ':' && next.all (fun n => isBlank n || isBreak n) then some []
      else if inFlow && isFlowMark c then some []
      else (plainRun? inFlow rest).map (c :: ·)

/-- Reads a plain scalar in the context of an indentation: the text so far, the white space after
it, and the cursor. Returns also whether line ends follow the scalar. -/
def plainFrom? (inFlow : Bool) (indent : Nat) :
    Nat → List Char → Gap → Cursor → Option (List Char × Bool × Cursor)
  | 0, text, gap, c => some (text, gap.spansLines, c)
  | fuel + 1, text, gap, c =>
    if c.atDocumentMarker || c.looksAt '#' then some (text, gap.spansLines, c)
    else
      match plainRun? inFlow c.rest with
      | none => none
      | some run =>
        let (text, gap) := if run.isEmpty then (text, gap) else (text ++ gap.folded ++ run, {})
        let c := c.skip run.length
        if c.atEnd || !c.seesGap then some (text, gap.spansLines, c)
        else
          match Gap.read? indent c.rest.length gap c with
          | none => none
          | some (gap, c) =>
            if !inFlow && c.column < indent then some (text, gap.spansLines, c)
            else plainFrom? inFlow indent fuel text gap c

def plain? (inFlow : Bool) (indent : Nat) (c : Cursor) : Option (List Char × Bool × Cursor) :=
  plainFrom? inFlow indent (c.rest.length + 1) [] {} c

def escapedChar? : Char → Option Char
  | '0' => some '\x00'
  | 'a' => some '\x07'
  | 'b' => some '\x08'
  | 't' => some '\t'
  | '\t' => some '\t'
  | 'n' => some '\n'
  | 'v' => some '\x0b'
  | 'f' => some '\x0c'
  | 'r' => some '\r'
  | 'e' => some '\x1b'
  | ' ' => some ' '
  | '"' => some '"'
  | '/' => some '/'
  | '\\' => some '\\'
  | 'N' => some (Char.ofNat 0x85)
  | '_' => some (Char.ofNat 0xa0)
  | 'L' => some (Char.ofNat 0x2028)
  | 'P' => some (Char.ofNat 0x2029)
  | _ => none

def escapeWidth? : Char → Option Nat
  | 'x' => some 2
  | 'u' => some 4
  | 'U' => some 8
  | _ => none

def hexNumber? (width : Nat) (digits : List Char) : Option Nat :=
  if digits.length < width then none
  else (digits.take width).foldlM (fun n c => (Text.hexValue? c).map (n * 16 + ·)) 0

/-- Reads the escape after a backslash: its character, and how many characters it takes. -/
def escape? : List Char → Option (Char × Nat)
  | [] => none
  | c :: rest =>
    match escapeWidth? c with
    | some width => (hexNumber? width rest).bind fun n =>
        if (0xd800 ≤ n ∧ n ≤ 0xdfff) ∨ 0x10ffff < n then none else some (Char.ofNat n, width + 1)
    | none => (escapedChar? c).map (·, 1)

def quoteMark (single : Bool) : Char := if single then '\x27' else '"'

/-- Reads the characters between quotes up to white space, the closing quote, or the end. Returns
also whether an escaped line end was passed last. -/
def quotedRun? (single : Bool) : Nat → List Char → Cursor → Option (List Char × Bool × Cursor)
  | 0, text, c => some (text, false, c)
  | fuel + 1, text, c =>
    match c.rest with
    | [] => some (text, false, c)
    | char :: rest =>
      if isBlank char || isBreak char then some (text, false, c)
      else if char = quoteMark single then
        if single && rest.head? == some char then
          quotedRun? single fuel (text ++ [char]) (c.skip 2)
        else some (text, false, c)
      else if !single && char == '\\' then
        if rest.head?.any isBreak then some (text, true, c.skip.skipBreak)
        else
          match escape? rest with
          | none => none
          | some (escaped, width) =>
            quotedRun? single fuel (text ++ [escaped]) (c.skip (1 + width))
      else quotedRun? single fuel (text ++ [char]) c.skip

def quotedFrom? (single : Bool) : Nat → List Char → Cursor → Option (List Char × Cursor)
  | 0, _, _ => none
  | fuel + 1, text, c =>
    if c.atDocumentMarker || c.atEnd then none
    else
      match quotedRun? single (c.rest.length + 1) text c with
      | none => none
      | some (text, escapedBreak, c) =>
        if c.looksAt (quoteMark single) then some (text, c.skip)
        else
          match Gap.read? 0 c.rest.length { spansLines := escapedBreak } c with
          | none => none
          | some (gap, c) => quotedFrom? single fuel (text ++ gap.folded) c

def quoted? (single : Bool) (c : Cursor) : Option (List Char × Cursor) :=
  quotedFrom? single (c.rest.length + 1) [] c.skip

inductive Chomping
  | strip
  | clip
  | keep
deriving DecidableEq

def chomping? : Char → Option Chomping
  | '+' => some .keep
  | '-' => some .strip
  | _ => none

/-- The number that a digit stands for as an indentation; zero is refused. -/
def indentation? (c : Char) : Option Nat :=
  if c.isDigit ∧ c ≠ '0' then some (Json.digitValue c) else none

def blockHeader? (c : Cursor) : Option (Chomping × Nat × Cursor) :=
  match (c.peek? 0).bind chomping? with
  | some chomping =>
    let c := c.skip
    if c.sees Char.isDigit then
      ((c.peek? 0).bind indentation?).map fun n => (chomping, n, c.skip)
    else some (chomping, 0, c)
  | none =>
    if c.sees Char.isDigit then
      ((c.peek? 0).bind indentation?).map fun n =>
        let c := c.skip
        match (c.peek? 0).bind chomping? with
        | some chomping => (chomping, n, c.skip)
        | none => (.clip, n, c)
    else some (.clip, 0, c)

/-- Reads indentation and empty lines of a block scalar whose indentation is given, or zero while
it is not known: the line ends, the widest indentation seen, and the cursor. A tab in the
indentation is refused. -/
def blockBreaks? (indent : Nat) :
    Nat → List Char → Nat → Cursor → Option (List Char × Nat × Cursor)
  | 0, breaks, widest, c => some (breaks, widest, c)
  | fuel + 1, breaks, widest, c =>
    let spaces := (c.rest.takeWhile (· == ' ')).length
    let c := c.skip (if indent = 0 then spaces else min spaces (indent - c.column))
    let widest := max widest c.column
    if (indent == 0 || c.column < indent) && c.looksAt '\t' then none
    else if c.sees isBreak then
      let (kept, next) := c.readBreak
      blockBreaks? indent fuel (breaks ++ kept) widest next
    else some (breaks, widest, c)

/-- The pieces of a block scalar in the course of reading: its text, the end of the last line, the
ends of the empty lines after it, and whether the last line started with white space. -/
structure Block where
  text : List Char := []
  lineEnd : List Char := []
  emptyLines : List Char := []
  indented : Bool := false

def blockLines? (literal : Bool) (indent : Nat) : Nat → Block → Cursor → Option (Block × Cursor)
  | 0, block, c => some (block, c)
  | fuel + 1, block, c =>
    if c.column ≠ indent ∨ c.atEnd then some (block, c)
    else
      let indented := c.sees isBlank
      let joint :=
        if !literal && block.lineEnd == ['\n'] && !block.indented && !indented then
          if block.emptyLines.isEmpty then [' '] else []
        else block.lineEnd
      let run := c.rest.takeWhile fun char => !isBreak char
      let text := block.text ++ joint ++ block.emptyLines ++ run
      let (lineEnd, c) := (c.skip run.length).readBreak
      match blockBreaks? indent (c.rest.length + 1) [] 0 c with
      | none => none
      | some (emptyLines, _, c) =>
        blockLines? literal indent fuel ⟨text, lineEnd, emptyLines, indented⟩ c

/-- Reads a block scalar within a collection at an indentation, minus one outside of any. -/
def block? (literal : Bool) (outer : Int) (c : Cursor) : Option (List Char × Cursor) := do
  let (chomping, given, c) ← blockHeader? c.skip
  let c := c.skipWhile isBlank
  let c := if c.looksAt '#' then c.skipWhile fun char => !isBreak char else c
  if !c.seesEnd then none
  let c := c.skipBreak
  let base := max 0 outer
  let indent := if given = 0 then 0 else base.toNat + given
  let (breaks, widest, c) ← blockBreaks? indent (c.rest.length + 1) [] 0 c
  let indent := if indent = 0 then max (max widest (outer + 1).toNat) 1 else indent
  let (block, c) ← blockLines? literal indent (c.rest.length + 1) { emptyLines := breaks } c
  let tail := match chomping with
    | .strip => []
    | .clip => block.lineEnd
    | .keep => block.lineEnd ++ block.emptyLines
  some (block.text ++ tail, c)

end Yaml

end RowPolicy
