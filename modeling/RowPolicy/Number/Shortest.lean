import RowPolicy.Number.Binary64

/-!
# Shortest decimals

A finite double is written with the fewest significant digits that still read back as the same
double; of several such decimals the nearest one is taken, and of two equally near ones the one
with the even last digit.
-/

namespace RowPolicy

structure Decimal where
  digits : Nat
  power : Int
deriving DecidableEq

namespace Decimal

def compareBinary (x : Decimal) (m : Nat) (q : Int) : Ordering :=
  compare (x.digits * powerOfTen x.power.toNat * powerOfTwo (-q).toNat)
    (m * powerOfTwo q.toNat * powerOfTen (-x.power).toNat)

/-- The number of decimal digits of a positive number, and one for zero. -/
def countDigits (n : Nat) : Nat := (Nat.toDigits 10 n).length

/-- Drops trailing zeros of the digits, as many as the fuel allows. -/
def dropZeros : Nat → Decimal → Decimal
  | 0, x => x
  | fuel + 1, x =>
    if x.digits ≠ 0 ∧ x.digits % 10 = 0 then dropZeros fuel ⟨x.digits / 10, x.power + 1⟩ else x

end Decimal

namespace Binary64

/-- The decimals that read back as a magnitude `m * 2 ^ q`, in units of `2 ^ (q - 2)`: from the
middle to the lower neighbour up to the middle to the upper one. Above a power of two the lower
neighbour is half as far away. -/
def readBackRange (x : Binary64) : Nat × Nat :=
  let m := 4 * x.significand
  let below := if x.significand = firstNormal ∧ 2 * firstNormal ≤ x.magnitude then 1 else 2
  (m - below, m + 2)

/-- Whether a decimal reads back as the magnitude; the ends of the range count when the
significand is even. -/
def readsBack (x : Binary64) (d : Decimal) : Bool :=
  let (low, high) := x.readBackRange
  let unit := x.exponent - 2
  let even := x.significand % 2 == 0
  let above := d.compareBinary low unit
  let below := d.compareBinary high unit
  (above == .gt || (even && above == .eq)) && (below == .lt || (even && below == .eq))

def overPower (x : Binary64) (power : Int) : Nat × Nat :=
  let (n, d) := scale x.significand 1 x.exponent
  (n * powerOfTen (-power).toNat, d * powerOfTen power.toNat)

/-- The decimal of the grid `10 ^ power` that reads back and lies nearest, if there is one. -/
def onGrid? (x : Binary64) (power : Int) : Option Decimal :=
  let (n, d) := x.overPower power
  let down : Decimal := ⟨n / d, power⟩
  let up : Decimal := ⟨n / d + 1, power⟩
  match x.readsBack down, x.readsBack up with
  | true, true => some ⟨nearest n d, power⟩
  | true, false => some down
  | false, true => some up
  | false, false => none

/-- The power of ten of the first significant digit, read off the floor, which is
positive after scaling up far enough for the smallest double. -/
def leadingPower (x : Binary64) : Int :=
  let (n, d) := x.overPower (-400)
  (Decimal.countDigits (n / d) : Int) - 401

/-- The shortest decimal of a number that is not zero: grids are tried from one digit up. -/
def shortest (x : Binary64) : Decimal :=
  let top := x.leadingPower
  let found := (List.range 18).findSome? fun (k : Nat) => x.onGrid? (top - (k : Int))
  (found.getD ⟨0, 0⟩).dropZeros 20

/-- The text of a number: positional when the first digit stands between `10 ^ -5` and
`10 ^ 15`, and always with a point then; else with an exponent that carries its sign. -/
def text (x : Binary64) : List Char :=
  let sign := if x.negative then ['-'] else []
  if x.isZero then sign ++ ['0', '.', '0']
  else
    let d := x.shortest
    let digits := Nat.toDigits 10 d.digits
    let lead : Int := d.power + digits.length - 1
    if lead < -5 ∨ 15 < lead then
      let fraction := match digits.drop 1 with
        | [] => []
        | rest => '.' :: rest
      let mark := if lead < 0 then '-' else '+'
      sign ++ digits.take 1 ++ fraction ++ 'e' :: mark :: Nat.toDigits 10 lead.natAbs
    else if lead < 0 then
      sign ++ '0' :: '.' :: List.replicate (lead.natAbs - 1) '0' ++ digits
    else if digits.length ≤ lead.toNat + 1 then
      sign ++ digits ++ List.replicate (lead.toNat + 1 - digits.length) '0' ++ ['.', '0']
    else
      sign ++ digits.take (lead.toNat + 1) ++ '.' :: digits.drop (lead.toNat + 1)

end Binary64

end RowPolicy
