import Stencil.Binary64
import Stencil.Decimal.Reading
import Stencil.Scalar

/-! What a JSON number stands for. Whole numbers are exact while they fit a 64-bit word. All
others are floating point: the digits that fit a word are one number, which is multiplied with
or divided by a power of ten, each step rounded. -/

namespace Stencil.Json

def greatestWord : Nat := 1 <<< 64 - 1

/-- Append digits to a word until the next one does not fit, and the digits from there on. -/
def intoWord : Nat → List Char → Nat × List Char
  | word, [] => (word, [])
  | word, c :: rest =>
      let next := 10 * word + (c.toNat - '0'.toNat)
      if greatestWord < next then (word, c :: rest) else intoWord next rest

private def powerOfTen (k : Nat) : Binary64 := .ofNat (Nat.pow 10 k)

/-- Divide by powers of ten of at most 308 at a time. -/
def scaleDown (x : Binary64) (places : Nat) : Binary64 :=
  if places ≤ 308 then x.div (powerOfTen places)
  else if x.isZero then x
  else scaleDown (x.div (powerOfTen 308)) (places - 308)
termination_by places

/-- A word times a power of ten, none where that is above all floating point numbers. -/
def scaled? (word : Nat) (exponent : Int) : Option Binary64 :=
  let x := Binary64.ofNat word
  if exponent < 0 then some (scaleDown x (-exponent).toNat)
  else if exponent ≤ 308 then
    let product := x.mul (powerOfTen exponent.toNat)
    if product.isFinite then some product else none
  else if x.isZero then some x
  else none

private def signed (negative : Bool) (x : Binary64) : Binary64 := if negative then x.neg else x

/-- None where the number is out of range. -/
def number? (lexeme : List Char) : Option Scalar := do
  let n ← Numeral.ofText? lexeme
  let (word, left) := intoWord 0 n.whole
  if left.isEmpty && lexeme.all (fun c => c.isDigit || c == '-') then
    if !n.negative then return .integer word
    else if 0 < word && word ≤ 1 <<< 63 then return .integer (-(word : Int))
    else return .float (Binary64.ofNat word).neg
  else
    let (word, unread) := intoWord word n.fraction
    let places : Int := left.length - (n.fraction.length - unread.length : Nat)
    return .float (signed n.negative (← scaled? word (places + n.exponent)))

end Stencil.Json
