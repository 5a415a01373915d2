import Stencil.Binary64

/-! The decimal with the fewest digits that reads back as a given floating point number, and
of those the nearest to it. -/

namespace Stencil

/-- `coefficient` times ten to the power `exponent`. -/
structure Decimal where
  coefficient : Nat
  exponent : Int
  deriving DecidableEq, Repr

/-- Which of two decimals at the same distance is taken. -/
inductive Tie where
  | up
  | even
  deriving DecidableEq, Repr

namespace Decimal

/-- A positive ratio with the ratios between which every other one rounds to the same number.
All four share one denominator. -/
structure Interval where
  low : Nat
  value : Nat
  high : Nat
  denominator : Nat
  closed : Bool

/-- The interval of a finite number that is not zero. Below a power of two the neighbouring
number is half as far away. -/
def Interval.of (x : Binary64) : Interval :=
  let (factor, divisor) := Binary64.splitPower 2 (x.scale - 2)
  let below := if x.fractionField = 0 && 1 < x.exponentField then 1 else 2
  { low := (4 * x.significand - below) * factor
    value := 4 * x.significand * factor
    high := (4 * x.significand + 2) * factor
    denominator := divisor
    closed := x.significand % 2 = 0 }

/-- Whether a decimal on the grid `10 ^ exponent` lies in the interval. -/
def Interval.holds (range : Interval) (candidate : Nat) (exponent : Int) : Bool :=
  let (factor, divisor) := Binary64.splitPower 10 exponent
  let scaled := candidate * factor * range.denominator
  if range.closed then range.low * divisor ≤ scaled && scaled ≤ range.high * divisor
  else range.low * divisor < scaled && scaled < range.high * divisor

/-- The place of the leading decimal digit of a positive ratio. -/
def leadingPlace (num den : Nat) : Int :=
  let guess : Int := ((Nat.toDigits 10 num).length : Int) - (Nat.toDigits 10 den).length
  let (factor, divisor) := Binary64.splitPower 10 guess
  if num * divisor < den * factor then guess - 1 else guess

/-- The better of the two neighbours of the value on the grid `10 ^ exponent`, if one lies in
the interval. -/
def Interval.onGrid? (range : Interval) (tie : Tie) (exponent : Int) : Option Nat :=
  let (factor, divisor) := Binary64.splitPower 10 exponent
  let num := range.value * divisor
  let den := range.denominator * factor
  let under := num / den
  let twice := 2 * (num % den)
  match range.holds under exponent, range.holds (under + 1) exponent with
  | false, false => none
  | true, false => some under
  | false, true => some (under + 1)
  | true, true =>
      if twice < den then some under
      else if den < twice then some (under + 1)
      else match tie with
        | .up => some (under + 1)
        | .even => some (if under % 2 = 0 then under else under + 1)

/-- The first grid, from coarse to fine, on which the interval has a point. -/
def Interval.search (range : Interval) (tie : Tie) : Nat → Int → Decimal
  | 0, exponent => ⟨(range.onGrid? tie exponent).getD 0, exponent⟩
  | finer + 1, exponent =>
      match range.onGrid? tie exponent with
      | some coefficient => ⟨coefficient, exponent⟩
      | none => range.search tie finer (exponent - 1)

/-- The digits without the zeros at their end, which the exponent counts. -/
def trimZeros : Nat → Decimal → Decimal
  | 0, d => d
  | steps + 1, d =>
      if d.coefficient != 0 && d.coefficient % 10 == 0 then
        trimZeros steps ⟨d.coefficient / 10, d.exponent + 1⟩
      else d

/-- Seventeen digits are enough for every number. -/
def shortest (tie : Tie) (x : Binary64) : Decimal :=
  if x.isZero then ⟨0, 0⟩
  else
    let range := Interval.of x
    trimZeros 17 (range.search tie 16 (leadingPlace range.value range.denominator))

end Decimal

end Stencil
