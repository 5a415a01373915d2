import Stencil.Calendar.Date
import Stencil.Text.Blank

/-! Clock readings and dates with a clock reading, without a time zone. They are written as
`2024-09-02T08:30:00.500`. -/

namespace Stencil.Calendar

/-- A reading of a clock. Second 60 is a leap second. -/
structure Clock where
  hour : Nat
  minute : Nat
  second : Nat
  nanosecond : Nat
  reading : hour < 24 ∧ minute < 60 ∧ second ≤ 60 ∧ nanosecond < 1000000000
  deriving DecidableEq

namespace Clock

def of? (hour minute second nanosecond : Nat) : Option Clock :=
  if reading : hour < 24 ∧ minute < 60 ∧ second ≤ 60 ∧ nanosecond < 1000000000 then
    some ⟨hour, minute, second, nanosecond, reading⟩
  else none

theorem of?_self (c : Clock) : of? c.hour c.minute c.second c.nanosecond = some c := by
  simp [of?, c.reading]

def midnight : Clock := ⟨0, 0, 0, 0, by decide⟩

instance : Inhabited Clock := ⟨midnight⟩

end Clock

structure DateTime where
  date : Date
  clock : Clock
  deriving DecidableEq, Inhabited

/-- A number with zeros before it up to a width. -/
def padded (width n : Nat) : List Char :=
  let digits := Nat.toDigits 10 n
  List.replicate (width - digits.length) '0' ++ digits

/-- At least four digits, and a sign outside of the four-digit years. -/
def yearText (year : Int) : List Char :=
  if year < 0 then '-' :: padded 4 year.natAbs
  else if 9999 < year then '+' :: padded 4 year.natAbs
  else padded 4 year.natAbs

/-- A point with three, six or nine digits, whichever are enough, and nothing for zero. -/
def fractionText (nanosecond : Nat) : List Char :=
  if nanosecond = 0 then []
  else if nanosecond % 1000000 = 0 then '.' :: padded 3 (nanosecond / 1000000)
  else if nanosecond % 1000 = 0 then '.' :: padded 6 (nanosecond / 1000)
  else '.' :: padded 9 nanosecond

def Date.toText (d : Date) : List Char :=
  yearText d.year ++ '-' :: padded 2 d.month ++ '-' :: padded 2 d.day

def Clock.toText (c : Clock) : List Char :=
  padded 2 c.hour ++ ':' :: padded 2 c.minute ++ ':' :: padded 2 c.second
    ++ fractionText c.nanosecond

namespace DateTime

def toText (t : DateTime) : List Char := t.date.toText ++ 'T' :: t.clock.toText

def ofDate (d : Date) : DateTime := ⟨d, .midnight⟩

/-- Seconds since the start of 1970. A leap second counts as the second before it. -/
def timestamp (t : DateTime) : Int :=
  (t.date.dayNumber - 719162) * 86400 + t.clock.hour * 3600 + t.clock.minute * 60
    + min t.clock.second 59

end DateTime

/-! Reading accepts blanks before a number and a separator, numbers with fewer digits, and
any number of digits after the point, of which nine count. -/

def skipBlanks (text : List Char) : List Char := text.dropWhile Text.isBlank

/-- One to `width` digits and the text behind them. -/
def takeNumber? (width : Nat) (text : List Char) : Option (Nat × List Char) :=
  let digits := (text.take width).takeWhile Char.isDigit
  if digits.isEmpty then none else some (Nat.ofDigitChars 10 digits 0, text.drop digits.length)

def field? (text : List Char) : Option (Nat × List Char) :=
  takeNumber? 2 (skipBlanks text)

/-- A year has up to four digits, or any number of them after a sign. -/
def takeYear? (text : List Char) : Option (Int × List Char) :=
  match skipBlanks text with
  | '-' :: rest => (takeNumber? rest.length rest).map fun (n, rest) => (-(n : Int), rest)
  | '+' :: rest => (takeNumber? rest.length rest).map fun (n, rest) => ((n : Int), rest)
  | rest => (takeNumber? 4 rest).map fun (n, rest) => ((n : Int), rest)

def separator? (mark : Char) (text : List Char) : Option (List Char) :=
  match skipBlanks text with
  | c :: rest => if c = mark then some rest else none
  | [] => none

/-- The nanoseconds that the digits after a point stand for. -/
def nanoseconds (digits : List Char) : Nat :=
  let kept := digits.take 9
  Nat.ofDigitChars 10 kept 0 * Nat.pow 10 (9 - kept.length)

def fraction? : List Char → Option (Nat × List Char)
  | '.' :: rest =>
      let digits := rest.takeWhile Char.isDigit
      if digits.isEmpty then none else some (nanoseconds digits, rest.drop digits.length)
  | rest => some (0, rest)

def takeDate? (text : List Char) : Option (Date × List Char) := do
  let (year, text) ← takeYear? text
  let text ← separator? '-' text
  let (month, text) ← field? text
  let text ← separator? '-' text
  let (day, text) ← field? text
  let date ← Date.of? year month day
  return (date, text)

def takeClock? (text : List Char) : Option (Clock × List Char) := do
  let (hour, text) ← field? text
  let text ← separator? ':' text
  let (minute, text) ← field? text
  let text ← separator? ':' text
  let (second, text) ← field? text
  let (nanosecond, text) ← fraction? text
  let clock ← Clock.of? hour minute second nanosecond
  return (clock, text)

def DateTime.ofText? (text : List Char) : Option DateTime := do
  let (date, text) ← takeDate? text
  let text ← separator? 'T' text
  let (clock, text) ← takeClock? text
  if Text.allBlank text then some ⟨date, clock⟩ else none

end Stencil.Calendar
