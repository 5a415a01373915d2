import Stencil.Calendar.DateTime

/-! Reading the dates and times that other programs exchange: RFC 3339, where every number has its
fixed width and there is an offset, and local date-times and days. Nothing may stand between the
numbers but their separators. -/

namespace Stencil.Calendar

/-- Exactly `width` digits. -/
def fixed? : Nat → List Char → Option (List Char × List Char)
  | 0, rest => some ([], rest)
  | width + 1, c :: rest =>
      if c.isDigit then (fixed? width rest).map fun (digits, rest) => (c :: digits, rest)
      else none
  | _ + 1, [] => none

def number? (width : Nat) (text : List Char) : Option (Nat × List Char) :=
  (fixed? width text).map fun (digits, rest) => (Nat.ofDigitChars 10 digits 0, rest)

def fixedYear? (text : List Char) : Option (Int × List Char) :=
  (number? 4 text).map fun (n, rest) => ((n : Int), rest)

def mark? (mark : Char) : List Char → Option (List Char)
  | c :: rest => if c = mark then some rest else none
  | [] => none

/-- A year, a month and a day between hyphens, and the text behind them. -/
def dateIn? (year? : List Char → Option (Int × List Char))
    (field? : List Char → Option (Nat × List Char)) (text : List Char) :
    Option (Date × List Char) := do
  let (year, text) ← year? text
  let text ← mark? '-' text
  let (month, text) ← field? text
  let text ← mark? '-' text
  let (day, text) ← field? text
  let date ← Date.of? year month day
  return (date, text)

/-- Hours, minutes and seconds between colons with a fraction, and the text behind them. -/
def clockIn? (field? : List Char → Option (Nat × List Char)) (text : List Char) :
    Option (Clock × List Char) := do
  let (hour, text) ← field? text
  let text ← mark? ':' text
  let (minute, text) ← field? text
  let text ← mark? ':' text
  let (second, text) ← field? text
  let (nanosecond, text) ← fraction? text
  let clock ← Clock.of? hour minute second nanosecond
  return (clock, text)

/-- The text behind a `T` of either case or a blank. -/
def timeMark? : List Char → Option (List Char)
  | c :: rest => if c = 'T' || c = 't' || c = ' ' then some rest else none
  | [] => none

/-- The text behind an offset, which is `Z` or less than a day in hours and minutes. The sign may be
the minus sign of mathematics. -/
def skipOffset? : List Char → Option (List Char)
  | [] => none
  | c :: rest =>
      if c = 'Z' || c = 'z' then some rest
      else if c = '+' || c = '-' || c = '−' then do
        let (hours, rest) ← number? 2 rest
        let rest ← mark? ':' rest
        let (minutes, rest) ← number? 2 rest
        if hours < 24 && minutes < 60 then some rest else none
      else none

/-- A value that takes up a whole text. -/
def whole? {α : Type} (read? : List Char → Option (α × List Char)) (text : List Char) : Option α :=
  (read? text).bind fun (found, rest) => if rest.isEmpty then some found else none

/-- The local reading of a date-time with an offset. -/
def DateTime.ofRfc3339? : List Char → Option DateTime :=
  whole? fun text => do
    let (date, text) ← dateIn? fixedYear? (number? 2) text
    let text ← timeMark? text
    let (clock, text) ← clockIn? (number? 2) text
    let text ← skipOffset? text
    return (⟨date, clock⟩, text)

/-- A date-time without an offset. -/
def DateTime.ofLocal? : List Char → Option DateTime :=
  whole? fun text => do
    let (date, text) ← dateIn? takeYear? field? text
    let text ← mark? 'T' text
    let (clock, text) ← clockIn? field? text
    return (⟨date, clock⟩, text)

/-- A day alone. -/
def Date.ofLocal? : List Char → Option Date := whole? (dateIn? takeYear? field?)

end Stencil.Calendar
