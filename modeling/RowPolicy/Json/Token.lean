import RowPolicy.Json.Numeral
import RowPolicy.Text.Hexadecimal

/-!
# JSON tokens

The tokens of JSON text, their lexer, and their written form. A string token whose escapes name no
character and a number token that is too large for a double are still tokens, but without a value:
whether that is an error depends on where they stand.
-/

namespace RowPolicy

namespace Json

inductive Token
  | openBrace
  | closeBrace
  | openBracket
  | closeBracket
  | comma
  | colon
  | null
  | bool (value : Bool)
  | number (value : Option Number)
  | string (value : Option String)
deriving DecidableEq

def isSpace (c : Char) : Bool := c == ' ' || c == '\n' || c == '\t' || c == '\r'

def hex4? (a b c d : Char) : Option Nat := do
  let a ← Text.hexValue? a
  let b ← Text.hexValue? b
  let c ← Text.hexValue? c
  let d ← Text.hexValue? d
  some (((a * 16 + b) * 16 + c) * 16 + d)

/-- The character that a one-letter escape stands for. -/
def escaped? : Char → Option Char
  | '"' => some '"'
  | '\\' => some '\\'
  | '/' => some '/'
  | 'b' => some '\x08'
  | 'f' => some '\x0c'
  | 'n' => some '\n'
  | 'r' => some '\r'
  | 't' => some '\t'
  | _ => none

/-- A unit of a string's text: a character, or a sixteen-bit code of a `\u` escape. -/
inductive StringUnit
  | char (c : Char)
  | code (n : Nat)

def stringUnits? : List Char → Option (List StringUnit × List Char)
  | '"' :: rest => some ([], rest)
  | '\\' :: 'u' :: a :: b :: c :: d :: rest =>
    match hex4? a b c d, stringUnits? rest with
    | some n, some (units, after) => some (.code n :: units, after)
    | _, _ => none
  | '\\' :: e :: rest =>
    match escaped? e, stringUnits? rest with
    | some c, some (units, after) => some (.char c :: units, after)
    | _, _ => none
  | c :: rest =>
    if c = '\\' ∨ c.toNat < 32 then none
    else (stringUnits? rest).map fun (units, after) => (.char c :: units, after)
  | [] => none

/-- The characters that units stand for: a leading surrogate must be followed by a trailing one,
and a trailing one must not stand alone. -/
def unitsChars? : List StringUnit → Option (List Char)
  | [] => some []
  | .char c :: rest => (unitsChars? rest).map (c :: ·)
  | .code n :: rest =>
    if n < 0xd800 ∨ 0xdfff < n then (unitsChars? rest).map (Char.ofNat n :: ·)
    else
      match rest with
      | .code m :: rest =>
        if n < 0xdc00 ∧ 0xdc00 ≤ m ∧ m ≤ 0xdfff then
          (unitsChars? rest).map (Char.ofNat (0x10000 + (n - 0xd800) * 0x400 + (m - 0xdc00)) :: ·)
        else none
      | _ => none

/-- Reads the fraction of a numeral, if it has one; returns the text after it. -/
def fraction? : List Char → Option (Option (List Char) × List Char)
  | '.' :: after =>
    let digits := after.takeWhile Char.isDigit
    if digits = [] then none else some (some digits, after.dropWhile Char.isDigit)
  | text => some (none, text)

def exponentSign : List Char → Bool × List Char
  | '+' :: after => (false, after)
  | '-' :: after => (true, after)
  | text => (false, text)

def exponent? : List Char → Option (Option (Bool × List Char) × List Char)
  | e :: after =>
    if e = 'e' ∨ e = 'E' then
      let (sign, after) := exponentSign after
      let digits := after.takeWhile Char.isDigit
      if digits = [] then none else some (some (sign, digits), after.dropWhile Char.isDigit)
    else some (none, e :: after)
  | [] => some (none, [])

def numeral? (negative : Bool) (text : List Char) : Option (Numeral × List Char) :=
  let whole := text.takeWhile Char.isDigit
  if whole = [] ∨ (whole.head? = some '0' ∧ whole ≠ ['0']) then none
  else do
    let (fraction, rest) ← fraction? (text.dropWhile Char.isDigit)
    let (exponent, rest) ← exponent? rest
    some (⟨negative, whole, fraction, exponent⟩, rest)

/-- Reads the first token of a text that starts with none of the white space; returns the text
after it. -/
def token? : List Char → Option (Token × List Char)
  | '{' :: rest => some (.openBrace, rest)
  | '}' :: rest => some (.closeBrace, rest)
  | '[' :: rest => some (.openBracket, rest)
  | ']' :: rest => some (.closeBracket, rest)
  | ',' :: rest => some (.comma, rest)
  | ':' :: rest => some (.colon, rest)
  | 'n' :: 'u' :: 'l' :: 'l' :: rest => some (.null, rest)
  | 't' :: 'r' :: 'u' :: 'e' :: rest => some (.bool true, rest)
  | 'f' :: 'a' :: 'l' :: 's' :: 'e' :: rest => some (.bool false, rest)
  | '"' :: rest =>
    (stringUnits? rest).map fun (units, after) =>
      (.string ((unitsChars? units).map String.ofList), after)
  | '-' :: rest => (numeral? true rest).map fun (n, after) => (.number n.value?, after)
  | text => (numeral? false text).map fun (n, after) => (.number n.value?, after)

def tokensWith? : Nat → List Char → Option (List Token)
  | 0, _ => none
  | fuel + 1, text =>
    match text.dropWhile isSpace with
    | [] => some []
    | rest =>
      match token? rest with
      | some (token, after) => (tokensWith? fuel after).map (token :: ·)
      | none => none

/-- The tokens of a text; every token takes at least one character. -/
def tokens? (text : List Char) : Option (List Token) := tokensWith? (text.length + 1) text

def charText (c : Char) : List Char :=
  if c = '"' then ['\\', '"']
  else if c = '\\' then ['\\', '\\']
  else if c = '\x08' then ['\\', 'b']
  else if c = '\x0c' then ['\\', 'f']
  else if c = '\n' then ['\\', 'n']
  else if c = '\r' then ['\\', 'r']
  else if c = '\t' then ['\\', 't']
  else if c.toNat < 32 then '\\' :: 'u' :: Text.hexDigits 4 c.toNat
  else [c]

def stringText (s : String) : List Char := '"' :: (s.toList.flatMap charText ++ ['"'])

end Json

end RowPolicy
