/-! The 64-bit floating point numbers as their bit patterns. Finite numbers are a significand
times a power of two, and every operation rounds the exact rational result to the nearest
pattern, ties to the even significand. -/

namespace Stencil

structure Binary64 where
  bits : UInt64
  deriving DecidableEq, Inhabited, Repr

namespace Binary64

def isNegative (x : Binary64) : Bool := 1 <<< 63 ≤ x.bits.toNat

def exponentField (x : Binary64) : Nat := (x.bits.toNat >>> 52) % 2048

def fractionField (x : Binary64) : Nat := x.bits.toNat % 1 <<< 52

def isFinite (x : Binary64) : Bool := x.exponentField != 2047

def isNaN (x : Binary64) : Bool := x.exponentField == 2047 && x.fractionField != 0

def isInfinite (x : Binary64) : Bool := x.exponentField == 2047 && x.fractionField == 0

def isZero (x : Binary64) : Bool := x.exponentField == 0 && x.fractionField == 0

/-- The significand of a finite number, with its leading bit. -/
def significand (x : Binary64) : Nat :=
  if x.exponentField = 0 then x.fractionField else x.fractionField + 1 <<< 52

/-- The power of two that the significand of a finite number is counted in. -/
def scale (x : Binary64) : Int :=
  if x.exponentField = 0 then -1074 else (x.exponentField : Int) - 1075

def ofParts (negative : Bool) (magnitude : Nat) : Binary64 :=
  ⟨UInt64.ofNat (if negative then 1 <<< 63 + magnitude else magnitude)⟩

def zero (negative : Bool) : Binary64 := ofParts negative 0

def infinity (negative : Bool) : Binary64 := ofParts negative (2047 <<< 52)

/-- The quiet NaN with an empty payload. -/
def nan : Binary64 := ofParts false (2047 <<< 52 + 1 <<< 51)

def neg (x : Binary64) : Binary64 := ⟨x.bits ^^^ UInt64.ofNat (1 <<< 63)⟩

/-- A power of two or of another base split into a factor and a divisor. -/
def splitPower (base : Nat) (exponent : Int) : Nat × Nat :=
  if 0 ≤ exponent then (base.pow exponent.toNat, 1) else (1, base.pow (-exponent).toNat)

/-- The nearest whole number to a ratio, halves to the even neighbour. -/
def roundRatio (num den : Nat) : Nat :=
  let whole := num / den
  let twice := 2 * (num % den)
  if den < twice || (den == twice && whole % 2 == 1) then whole + 1 else whole

/-- The greatest power of two not above a positive ratio. -/
def floorLog2 (num den : Nat) : Int :=
  let guess : Int := (num.log2 : Int) - (den.log2 : Int)
  let (factor, divisor) := splitPower 2 guess
  if num * divisor < den * factor then guess - 1 else guess

/-- The nearest number to a ratio, infinity where it exceeds every finite one. -/
def ofRatio (negative : Bool) (num den : Nat) : Binary64 :=
  if num = 0 then zero negative
  else
    let unit := max (floorLog2 num den - 52) (-1074)
    let (factor, divisor) := splitPower 2 unit
    let rounded := roundRatio (num * divisor) (den * factor)
    let magnitude := (unit + 1074).toNat <<< 52 + rounded
    if 2047 <<< 52 ≤ magnitude then infinity negative else ofParts negative magnitude

def ofNat (n : Nat) : Binary64 := ofRatio false n 1

/-- The nearest number to a coefficient times a power of ten. Exponents that decide the
result by themselves are not expanded. -/
def ofDecimal (negative : Bool) (coefficient : Nat) (exponent : Int) : Binary64 :=
  if coefficient = 0 then zero negative
  else
    let places : Int := (Nat.toDigits 10 coefficient).length + exponent
    if 310 < places then infinity negative
    else if places < -330 then zero negative
    else
      let (factor, divisor) := splitPower 10 exponent
      ofRatio negative (coefficient * factor) divisor

/-- The product of two finite numbers. -/
def mul (x y : Binary64) : Binary64 :=
  let (factor, divisor) := splitPower 2 (x.scale + y.scale)
  ofRatio (x.isNegative != y.isNegative) (x.significand * y.significand * factor) divisor

/-- The quotient of a finite number and a finite one that is not zero. -/
def div (x y : Binary64) : Binary64 :=
  let (factor, divisor) := splitPower 2 (x.scale - y.scale)
  ofRatio (x.isNegative != y.isNegative) (x.significand * factor) (y.significand * divisor)

/-- The place of a pattern in the order of the numbers: one step per representable number,
negative zero just below positive zero. -/
def rank (x : Binary64) : UInt64 :=
  if x.isNegative then ~~~ x.bits else x.bits ^^^ UInt64.ofNat (1 <<< 63)

/-- Equal up to two steps between neighbouring numbers, counted around the whole circle of
patterns. -/
def near (x y : Binary64) : Bool :=
  let apart := x.rank - y.rank
  apart ≤ 2 || UInt64.ofNat (1 <<< 64 - 2) ≤ apart

theorem near_refl (x : Binary64) : x.near x = true := by
  simp [near]

end Binary64

end Stencil
