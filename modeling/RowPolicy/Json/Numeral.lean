import RowPolicy.Json.Basic
import RowPolicy.Number.Shortest

/-!
# Numerals

How a number is spelled in JSON text. A numeral without fraction and exponent that fits sixty-four
bits is an integer; every other one, and also `-0`, is a double. A double is computed from a
sixty-four bit significand and a power of ten, with one rounding for the significand and one for
each power applied, so its last bit can differ from the nearest double.
-/

namespace RowPolicy

namespace Json

def digitValue (c : Char) : Nat := c.toNat - 48

def digitsValue (digits : List Char) : Nat :=
  digits.foldl (fun n c => n * 10 + digitValue c) 0

/-- A spelled number: sign, whole part, fraction and exponent, the last with its own sign. -/
structure Numeral where
  negative : Bool
  whole : List Char
  fraction : Option (List Char)
  exponent : Option (Bool × List Char)
deriving DecidableEq

namespace Numeral

def maxSignificand : Nat := 18446744073709551615

/-- The largest exponent that is still computed with. -/
def maxExponent : Nat := 2147483647

/-- Reads digits into a significand while it fits; returns the digits left over. -/
def gather : Nat → List Char → Nat × List Char
  | significand, [] => (significand, [])
  | significand, c :: rest =>
    let next := significand * 10 + digitValue c
    if maxSignificand < next then (significand, c :: rest) else gather next rest

/-- The significand of the whole part and the fraction together, with its power of ten. Whole
digits that do not fit raise the power, and fraction digits that do not fit are dropped. -/
def parts (numeral : Numeral) : Nat × Int :=
  let (whole, left) := gather 0 numeral.whole
  match numeral.fraction with
  | none => (whole, left.length)
  | some digits =>
    let (significand, dropped) := gather whole digits
    (significand, (left.length : Int) - (digits.length - dropped.length : Nat))

def tenTo (power : Nat) : Binary64 :=
  (Binary64.ofRatio? false (powerOfTen power) 1).getD (Binary64.zero false)

/-- Divides by `10 ^ 308` until the power left is in reach or nothing is left, at most as often as
the fuel allows; four times are enough for every significand. -/
def scaleDown : Nat → Binary64 → Int → Option Binary64
  | 0, x, _ => some x
  | fuel + 1, x, power =>
    if -308 ≤ power then x.div? (tenTo power.natAbs)
    else if x.isZero then some x
    else (x.div? (tenTo 308)).bind fun y => scaleDown fuel y (power + 308)

def double? (significand : Nat) (power : Int) : Option Binary64 :=
  (Binary64.ofRatio? false significand 1).bind fun x =>
    if power < 0 then scaleDown 4 x power
    else if power ≤ 308 then x.mul? (tenTo power.toNat)
    else if x.isZero then some x
    else none

def exponentValue? (digits : List Char) : Option Nat :=
  let value := digitsValue digits
  if value ≤ maxExponent then some value else none

def magnitude? (numeral : Numeral) : Option Binary64 :=
  let (significand, power) := numeral.parts
  match numeral.exponent with
  | none => double? significand power
  | some (negative, digits) =>
    match exponentValue? digits with
    | some value => double? significand (if negative then power - value else power + value)
    | none => if significand = 0 ∨ negative then some (Binary64.zero false) else none

/-- The integer that a numeral spells, when it spells one in range. Minus zero is no integer. -/
def integer? (numeral : Numeral) : Option Integer :=
  if numeral.fraction.isSome ∨ numeral.exponent.isSome then none
  else
    let value := digitsValue numeral.whole
    if numeral.negative then if value = 0 then none else Integer.ofInt? (-value)
    else Integer.ofInt? value

/-- The number that a numeral spells; none when it is too large for a double. -/
def value? (numeral : Numeral) : Option Number :=
  match numeral.integer? with
  | some value => some (.integer value)
  | none => numeral.magnitude?.map fun x => .real (if numeral.negative then x.neg else x)

end Numeral

def Integer.text (x : Integer) : List Char :=
  if x.value < 0 then '-' :: Nat.toDigits 10 x.value.natAbs else Nat.toDigits 10 x.value.natAbs

def Number.text : Number → List Char
  | .integer value => value.text
  | .real value => value.text

end Json

end RowPolicy
