import Stencil.Decimal.Shortest

/-! How a floating point number is written: which exponents are written out in full, and how
the others are marked. -/

namespace Stencil

/-- The decisions of one written form. Exponents outside of the range, which are those of the
leading digit, get a mark with a sign. -/
structure Notation where
  tie : Tie
  /-- Exponents written out in full, all of them where there is no range. -/
  plain : Option (Int × Int)
  /-- Whether whole numbers end in a point and a zero. -/
  pointZero : Bool

namespace Notation

private def zeros (n : Nat) : List Char := List.replicate n '0'

/-- The digits with the point after the first `whole` of them, zeros filled in. -/
def placePoint (pointZero : Bool) (digits : List Char) (whole : Int) : List Char :=
  if whole ≤ 0 then '0' :: '.' :: zeros (-whole).toNat ++ digits
  else if digits.length ≤ whole then
    digits ++ zeros (whole.toNat - digits.length) ++ (if pointZero then ['.', '0'] else [])
  else digits.take whole.toNat ++ '.' :: digits.drop whole.toNat

private def marked (digits : List Char) (leading : Int) : List Char :=
  let mantissa := match digits with
    | [] => []
    | [only] => [only]
    | first :: rest => first :: '.' :: rest
  let sign := if leading < 0 then '-' else '+'
  mantissa ++ 'e' :: sign :: Nat.toDigits 10 leading.natAbs

private def finite (style : Notation) (d : Decimal) : List Char :=
  let digits := Nat.toDigits 10 d.coefficient
  let leading : Int := digits.length + d.exponent - 1
  let inFull := match style.plain with
    | none => true
    | some (least, greatest) => least ≤ leading && leading ≤ greatest
  if inFull then placePoint style.pointZero digits (leading + 1) else marked digits leading

def write (style : Notation) (x : Binary64) : List Char :=
  if x.isNaN then ['N', 'a', 'N']
  else
    let sign := if x.isNegative then ['-'] else []
    if x.isInfinite then sign ++ ['i', 'n', 'f']
    else sign ++ style.finite (Decimal.shortest style.tie x)

/-- Numbers in running text: never an exponent, no point after whole numbers. -/
def prose : Notation := ⟨.up, none, false⟩

/-- A number whose shortest decimal is whole is written as the digits of that and zeros. -/
theorem prose_write_of_whole {x : Binary64} (bounded : x.isFinite = true)
    (positive : x.isNegative = false) (whole : 0 ≤ (Decimal.shortest .up x).exponent) :
    prose.write x = Nat.toDigits 10 (Decimal.shortest .up x).coefficient ++
      List.replicate (Decimal.shortest .up x).exponent.toNat '0' := by
  have field : (x.exponentField == 2047) = false := by simpa [Binary64.isFinite] using bounded
  have digits := Nat.length_toDigits_pos (b := 10) (n := (Decimal.shortest .up x).coefficient)
  generalize shortest : Decimal.shortest .up x = d at whole digits ⊢
  have long : (Nat.toDigits 10 d.coefficient).length ≤
      ((Nat.toDigits 10 d.coefficient).length + d.exponent - 1 + 1 : Int) := by omega
  have zeroCount : ((Nat.toDigits 10 d.coefficient).length + d.exponent - 1 + 1 : Int).toNat -
      (Nat.toDigits 10 d.coefficient).length = d.exponent.toNat := by omega
  have some : ¬((Nat.toDigits 10 d.coefficient).length + d.exponent - 1 + 1 : Int) ≤ 0 := by omega
  simp only [write, Binary64.isNaN, Binary64.isInfinite, field, positive, prose, finite, placePoint,
    zeros, shortest, if_neg some, if_pos long, zeroCount, Bool.false_and, Bool.false_eq_true,
    if_false, if_true, List.nil_append, List.append_nil]

/-- Numbers in data: sixteen places before the point and five zeros behind it are written out,
and a number that is not marked by an exponent has a point. -/
def data : Notation := ⟨.even, some (-5, 15), true⟩

end Notation

end Stencil
