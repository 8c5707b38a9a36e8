import RowPolicy.Json.Numeral
import RowPolicy.Json.Token

/-!
# What plain scalars mean

A plain scalar is null, a truth value, an integer, a float or else a string, by its spelling.
Integers are decimal, or hexadecimal, octal or binary behind `0x`, `0o` or `0b`. A decimal number
with a needless leading zero is a string, and an integer that fits 128 bits but not 64 is refused.
-/

namespace RowPolicy

namespace Yaml

def isNullText (text : String) : Bool := ["null", "Null", "NULL", "~"].contains text

def boolOf? (text : String) : Option Bool :=
  if ["true", "True", "TRUE"].contains text then some true
  else if ["false", "False", "FALSE"].contains text then some false
  else none

def withoutPlus : List Char → List Char
  | '+' :: rest => rest
  | text => text

def isSigned (text : List Char) : Bool := text.head?.any fun c => c == '+' || c == '-'

def hasLeadingZero (text : List Char) : Bool :=
  let digits := if isSigned text then text.drop 1 else text
  1 < digits.length && digits.head? == some '0' && digits.all Char.isDigit

def inRadix? (radix : Nat) (digits : List Char) : Option Nat :=
  if digits.isEmpty then none
  else digits.foldlM (fun n c =>
    (Text.hexValue? c).bind fun d => if d < radix then some (n * radix + d) else none) 0

/-- The radix that a text announces, and the digits behind the announcement. -/
def radixOf : List Char → Nat × List Char
  | '0' :: 'x' :: rest => (16, rest)
  | '0' :: 'o' :: rest => (8, rest)
  | '0' :: 'b' :: rest => (2, rest)
  | text => (10, text)

def integerOf? (text : List Char) : Option Int :=
  if hasLeadingZero text then none
  else
    match text with
    | '-' :: rest =>
      let (radix, digits) := radixOf rest
      (inRadix? radix digits).map fun n => -(n : Int)
    | _ =>
      let (radix, digits) := radixOf (withoutPlus text)
      (inRadix? radix digits).map fun n => (n : Int)

def countOf? (text : String) : Option UInt64 :=
  if text.toList.head? = some '-' then none
  else (integerOf? text.toList).bind fun value =>
    if value < 0x10000000000000000 then some (UInt64.ofNat value.toNat) else none

/-- Reads digits with at most one point among or around them, of which at least one is there:
their number, and how many stand behind the point. -/
def mantissa? (text : List Char) : Option (Nat × Nat × List Char) :=
  let whole := text.takeWhile Char.isDigit
  let rest := text.dropWhile Char.isDigit
  let (fraction, rest) := match rest with
    | '.' :: after => (after.takeWhile Char.isDigit, after.dropWhile Char.isDigit)
    | _ => ([], rest)
  if whole.isEmpty && fraction.isEmpty then none
  else some (Json.digitsValue (whole ++ fraction), fraction.length, rest)

def exponent? : List Char → Option Int
  | [] => some 0
  | e :: rest =>
    if e = 'e' ∨ e = 'E' then
      let digits := if isSigned rest then rest.drop 1 else rest
      if digits.isEmpty || !digits.all Char.isDigit then none
      else
        let n : Int := Json.digitsValue digits
        some (if rest.head? = some '-' then -n else n)
    else none

/-- The double nearest to the decimal that a text spells, unless that is too large. -/
def doubleOf? (text : List Char) : Option Binary64 :=
  let unsigned := if isSigned text then text.drop 1 else text
  match mantissa? unsigned with
  | none => none
  | some (digits, places, rest) =>
    (exponent? rest).bind fun e =>
      Binary64.ofDecimal? (text.head? == some '-') digits (e - places)

/-- What a text spells as a float: a double, or a value that is not finite and counts as null. -/
def floatOf? (text : String) : Option Json :=
  if [".inf", ".Inf", ".INF", "+.inf", "+.Inf", "+.INF", "-.inf", "-.Inf", "-.INF", ".nan", ".NaN",
      ".NAN"].contains text then
    some .null
  else (doubleOf? text.toList).map fun x => .number (.real x)

/-- The greatest size of an integer that is refused instead of being taken as a float. -/
def wideLimit (value : Int) : Bool :=
  -0x80000000000000000000000000000000 ≤ value && value < 0x100000000000000000000000000000000

/-- What a text spells as an integer: a number, or a refusal. -/
def wholeOf? (text : String) : Option (Option Json) :=
  match integerOf? text.toList with
  | none => none
  | some value =>
    match Json.Integer.ofInt? value with
    | some n => some (some (Json.ofInteger n))
    | none => if wideLimit value then some none else none

def plainValue? (text : String) : Option Json :=
  if text = "" ∨ isNullText text then some .null
  else
    match boolOf? text with
    | some value => some (.bool value)
    | none =>
      match wholeOf? text with
      | some value => value
      | none =>
        if hasLeadingZero text.toList then some (.string text)
        else some ((floatOf? text).getD (.string text))

end Yaml

end RowPolicy
