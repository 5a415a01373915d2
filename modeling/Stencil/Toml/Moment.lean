import Stencil.Calendar.Interchange
import Stencil.Value.Basic

/-! The dates and times of TOML: a date, a time of day, or both, and an offset where there are
both. Seconds may be left out. -/

namespace Stencil.Toml

/-- A day in a year of four digits. -/
structure Day extends Calendar.Date where
  four_digits : 0 ≤ year ∧ year ≤ 9999
  deriving DecidableEq

def Day.of? (date : Calendar.Date) : Option Day :=
  if digits : 0 ≤ date.year ∧ date.year ≤ 9999 then some ⟨date, digits⟩ else none

/-- The seconds of a time, sixty for a leap second, and a fraction of them if one is written. -/
structure Seconds where
  whole : Nat
  nanosecond : Option Nat
  within : whole ≤ 60 ∧ nanosecond.getD 0 < 1000000000
  deriving DecidableEq

def Seconds.of? (whole : Nat) (nanosecond : Option Nat) : Option Seconds :=
  if within : whole ≤ 60 ∧ nanosecond.getD 0 < 1000000000 then some ⟨whole, nanosecond, within⟩
  else none

structure TimeOfDay where
  hour : Nat
  minute : Nat
  seconds : Option Seconds
  within : hour < 24 ∧ minute < 60
  deriving DecidableEq

def TimeOfDay.of? (hour minute : Nat) (seconds : Option Seconds) : Option TimeOfDay :=
  if within : hour < 24 ∧ minute < 60 then some ⟨hour, minute, seconds, within⟩ else none

/-- An offset is less than a day. -/
inductive Offset where
  | utc
  | minutes (east : Int) (within : east.natAbs < 24 * 60)
  deriving DecidableEq

inductive Moment where
  | date (day : Day)
  | time (clock : TimeOfDay)
  | dateTime (day : Day) (clock : TimeOfDay) (offset : Option Offset)
  deriving DecidableEq

open Calendar (padded number? mark? DateTime)

def trimZeros (digits : List Char) : List Char :=
  (digits.reverse.dropWhile (· == '0')).reverse

def fractionDigits (nanosecond : Nat) : List Char :=
  let digits := trimZeros (padded 9 nanosecond)
  if digits.isEmpty then ['0'] else digits

def fractionText : Option Nat → List Char
  | some nanosecond => '.' :: fractionDigits nanosecond
  | none => []

def Seconds.toText (s : Seconds) : List Char := ':' :: padded 2 s.whole ++ fractionText s.nanosecond

def TimeOfDay.toText (t : TimeOfDay) : List Char :=
  padded 2 t.hour ++ ':' :: padded 2 t.minute ++ (t.seconds.map Seconds.toText).getD []

def Offset.toText : Offset → List Char
  | utc => ['Z']
  | minutes east _ =>
      let sign := if east < 0 then '-' else '+'
      sign :: padded 2 (east.natAbs / 60) ++ ':' :: padded 2 (east.natAbs % 60)

def Moment.toText : Moment → List Char
  | date day => day.toDate.toText
  | time clock => clock.toText
  | dateTime day clock offset =>
      day.toDate.toText ++ 'T' :: clock.toText ++ (offset.map Offset.toText).getD []

/-- The local reading of a text that is a date-time, with an offset or without, or a day, which
begins at midnight. Any other text stays one. -/
def valueOfText (text : List Char) : Value :=
  match DateTime.ofRfc3339? text with
  | some reading => .date reading
  | none =>
      match DateTime.ofLocal? text with
      | some reading => .date reading
      | none =>
          match Calendar.Date.ofLocal? text with
          | some day => .date (.ofDate day)
          | none => .text (String.ofList text)

/-- A moment becomes what its written form is read as. -/
def Moment.toValue (m : Moment) : Value := valueOfText m.toText

/-! Reading. Every number has a fixed number of digits. -/

def takeDate? (input : List Char) : Option (Day × List Char) := do
  let (year, input) ← number? 4 input
  let input ← mark? '-' input
  let (month, input) ← number? 2 input
  let input ← mark? '-' input
  let (day, input) ← number? 2 input
  let date ← Calendar.Date.of? year month day
  let day ← Day.of? date
  return (day, input)

private def takeFraction? : List Char → Option (Option Nat × List Char)
  | '.' :: rest =>
      let digits := rest.takeWhile Char.isDigit
      if digits.isEmpty then none
      else some (some (Calendar.nanoseconds digits), rest.drop digits.length)
  | rest => some (none, rest)

private def takeSeconds? : List Char → Option (Option Seconds × List Char)
  | ':' :: rest => do
      let (whole, rest) ← number? 2 rest
      let (nanosecond, rest) ← takeFraction? rest
      let seconds ← Seconds.of? whole nanosecond
      return (some seconds, rest)
  | rest => some (none, rest)

def takeTime? (input : List Char) : Option (TimeOfDay × List Char) := do
  let (hour, input) ← number? 2 input
  let input ← mark? ':' input
  let (minute, input) ← number? 2 input
  let (seconds, input) ← takeSeconds? input
  let clock ← TimeOfDay.of? hour minute seconds
  return (clock, input)

private def Offset.of? (east : Int) : Option Offset :=
  if within : east.natAbs < 24 * 60 then some (.minutes east within) else none

private def offset? : List Char → Option (Option Offset)
  | [] => some none
  | [c] => if c = 'Z' || c = 'z' then some (some .utc) else none
  | sign :: rest => do
      let (hours, rest) ← number? 2 rest
      let rest ← mark? ':' rest
      let (minutes, rest) ← number? 2 rest
      let east : Int := hours * 60 + minutes
      if !rest.isEmpty || 23 < hours || 59 < minutes then none
      else if sign = '+' then (Offset.of? east).map some
      else if sign = '-' then (Offset.of? (-east)).map some
      else none

/-- A date or time that makes up a whole text, with a `T` of either case between the two. -/
def Moment.ofText? (input : List Char) : Option Moment :=
  match takeDate? input with
  | some (day, []) => some (.date day)
  | some (day, separator :: rest) =>
      if separator = 'T' || separator = 't' then do
        let (clock, rest) ← takeTime? rest
        let offset ← offset? rest
        return .dateTime day clock offset
      else none
  | none =>
      match takeTime? input with
      | some (clock, []) => some (.time clock)
      | _ => none

end Stencil.Toml
