/-!
# Finite binary64 numbers

A finite double is a sign and a magnitude word: eleven bits of exponent above fifty-two bits of
fraction. Magnitude words are ordered as the values they stand for, so the next larger value has
the next word. Rounding to nearest, with ties to the even word, is exact arithmetic on `Nat`.
-/

namespace RowPolicy

def powerOfTwo (exponent : Nat) : Nat := Nat.pow 2 exponent

def powerOfTen (exponent : Nat) : Nat := Nat.pow 10 exponent

/-- The first magnitude word of a normal number. -/
def firstNormal : Nat := 0x10000000000000

/-- The first magnitude word that stands for no finite number. -/
def firstInfinite : Nat := 0x7ff0000000000000

structure Binary64 where
  negative : Bool
  magnitude : Nat
  finite : magnitude < firstInfinite
deriving DecidableEq

namespace Binary64

def zero (negative : Bool) : Binary64 := ⟨negative, 0, by decide⟩

def ofWord? (negative : Bool) (word : Nat) : Option Binary64 :=
  if h : word < firstInfinite then some ⟨negative, word, h⟩ else none

def neg (x : Binary64) : Binary64 := { x with negative := !x.negative }

def isZero (x : Binary64) : Bool := x.magnitude == 0

/-- Equality of values: the two zeros are equal, all else only to itself. -/
def same (x y : Binary64) : Bool :=
  x.magnitude == y.magnitude && (x.negative == y.negative || x.magnitude == 0)

/-- The significand: the magnitude is `significand * 2 ^ exponent`. -/
def significand (x : Binary64) : Nat :=
  if x.magnitude < firstNormal then x.magnitude else firstNormal + x.magnitude % firstNormal

/-- The exponent of two of the last bit of the significand. -/
def exponent (x : Binary64) : Int :=
  if x.magnitude < firstNormal then -1074 else (x.magnitude / firstNormal : Nat) - 1075

/-- The nearest whole number to a quotient; a tie goes to the even one. -/
def nearest (numerator denominator : Nat) : Nat :=
  let quotient := numerator / denominator
  let rest := numerator % denominator
  if 2 * rest < denominator then quotient
  else if denominator < 2 * rest then quotient + 1
  else quotient + quotient % 2

def scale (numerator denominator : Nat) (power : Int) : Nat × Nat :=
  (numerator * powerOfTwo power.toNat, denominator * powerOfTwo (-power).toNat)

/-- The exponent of the last bit kept when a positive quotient is rounded: fifty-three bits are
kept of a normal number, and nothing below `2 ^ -1074` is kept at all. -/
def lastBit (numerator denominator : Nat) : Int :=
  let guess : Int := (numerator.log2 : Int) - denominator.log2 - 52
  let (n, d) := scale numerator denominator (-guess)
  max (-1074) (if n / d < firstNormal then guess - 1 else guess)

/-- The finite number nearest to a quotient with a positive denominator, if the quotient is not
too large. -/
def ofRatio? (negative : Bool) (numerator denominator : Nat) : Option Binary64 :=
  if numerator = 0 then some (zero negative)
  else
    let last := lastBit numerator denominator
    let (n, d) := scale numerator denominator (-last)
    ofWord? negative ((last + 1074).toNat * firstNormal + nearest n d)

def mul? (x y : Binary64) : Option Binary64 :=
  let (n, d) := scale (x.significand * y.significand) 1 (x.exponent + y.exponent)
  ofRatio? (x.negative != y.negative) n d

def div? (x y : Binary64) : Option Binary64 :=
  let (n, d) := scale x.significand y.significand (x.exponent - y.exponent)
  ofRatio? (x.negative != y.negative) n d

/-- The number nearest to a decimal `digits * 10 ^ power`, if it is not too large. Powers so far
out that the outcome no longer depends on them are cut short. -/
def ofDecimal? (negative : Bool) (digits : Nat) (power : Int) : Option Binary64 :=
  if digits = 0 then some (zero negative)
  else if 400 < power then none
  else if power + (digits.log2 : Int) < -1500 then some (zero negative)
  else ofRatio? negative (digits * powerOfTen power.toNat) (powerOfTen (-power).toNat)

end Binary64

end RowPolicy
