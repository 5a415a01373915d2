import Stencil.Binary64

/-! Decimal numbers as they are written: digits with an optional point and an optional
exponent. -/

namespace Stencil

/-- The parts of a written number. -/
structure Numeral where
  negative : Bool
  whole : List Char
  fraction : List Char
  exponent : Int
  deriving DecidableEq, Repr

namespace Numeral

/-- A leading sign, and the text behind it. -/
def takeSign : List Char → Bool × List Char
  | '-' :: rest => (true, rest)
  | '+' :: rest => (false, rest)
  | text => (false, text)

/-- An exponent that makes up the whole rest of a text, zero for no text. -/
def exponent? : List Char → Option Int
  | [] => some 0
  | mark :: rest =>
      if mark = 'e' || mark = 'E' then
        let (negative, digits) := takeSign rest
        if !digits.isEmpty && digits.all Char.isDigit then
          some (if negative then -(Nat.ofDigitChars 10 digits 0 : Int) else Nat.ofDigitChars 10 digits 0)
        else none
      else none

/-- A number that makes up a whole text. Digits may be missing on one side of the point. -/
def ofText? (text : List Char) : Option Numeral :=
  let (negative, text) := takeSign text
  let whole := text.takeWhile Char.isDigit
  let (fraction, rest) := match text.dropWhile Char.isDigit with
    | '.' :: behind => (behind.takeWhile Char.isDigit, behind.dropWhile Char.isDigit)
    | rest => ([], rest)
  if whole.isEmpty && fraction.isEmpty then none
  else (exponent? rest).map (⟨negative, whole, fraction, ·⟩)

/-- The nearest floating point number. -/
def toBinary64 (n : Numeral) : Binary64 :=
  .ofDecimal n.negative (Nat.ofDigitChars 10 (n.whole ++ n.fraction) 0) (n.exponent - n.fraction.length)

end Numeral

end Stencil
