import Stencil.Calendar.DateTime

/-! Date patterns: text in which a percent sign and a letter stand for a part of a date. A
pattern is read once; rendering then fails only for the parts that a date without a time zone
does not have. -/

namespace Stencil.Calendar

inductive Field where
  | year | century | yearOfCentury
  | isoYear | isoYearOfCentury
  | quarter | month | day | dayOfYear
  | weekFromSunday | weekFromMonday | isoWeek
  | daysFromSunday | weekdayNumber
  | hour | hour12 | minute | second | nanosecond
  | timestamp
  deriving DecidableEq, Repr

inductive Padding where
  | none | zero | space
  deriving DecidableEq, Repr

inductive Item where
  | literal (c : Char)
  | number (field : Field) (padding : Padding)
  | monthName (short : Bool)
  | weekdayName (short : Bool)
  | halfDay (upper : Bool)
  /-- A point and three, six or nine digits, whichever are enough. -/
  | fraction
  | fixedFraction (point : Bool) (places : Nat)
  /-- A time zone or an offset from it. -/
  | zone
  deriving DecidableEq, Repr

namespace Item

private def two (field : Field) : Item := .number field .zero

/-- What a letter stands for. -/
def ofLetter? : Char → Option (List Item)
  | 'Y' => some [two .year]
  | 'C' => some [two .century]
  | 'y' => some [two .yearOfCentury]
  | 'G' => some [two .isoYear]
  | 'g' => some [two .isoYearOfCentury]
  | 'q' => some [.number .quarter .none]
  | 'm' => some [two .month]
  | 'd' => some [two .day]
  | 'e' => some [.number .day .space]
  | 'j' => some [two .dayOfYear]
  | 'U' => some [two .weekFromSunday]
  | 'W' => some [two .weekFromMonday]
  | 'V' => some [two .isoWeek]
  | 'w' => some [.number .daysFromSunday .none]
  | 'u' => some [.number .weekdayNumber .none]
  | 'H' => some [two .hour]
  | 'k' => some [.number .hour .space]
  | 'I' => some [two .hour12]
  | 'l' => some [.number .hour12 .space]
  | 'M' => some [two .minute]
  | 'S' => some [two .second]
  | 'f' => some [two .nanosecond]
  | 's' => some [.number .timestamp .none]
  | 'b' | 'h' => some [.monthName true]
  | 'B' => some [.monthName false]
  | 'a' => some [.weekdayName true]
  | 'A' => some [.weekdayName false]
  | 'p' => some [.halfDay true]
  | 'P' => some [.halfDay false]
  | 'D' | 'x' => some [two .month, .literal '/', two .day, .literal '/', two .yearOfCentury]
  | 'F' => some [two .year, .literal '-', two .month, .literal '-', two .day]
  | 'v' => some [.number .day .space, .literal '-', .monthName true, .literal '-', two .year]
  | 'R' => some [two .hour, .literal ':', two .minute]
  | 'T' | 'X' => some [two .hour, .literal ':', two .minute, .literal ':', two .second]
  | 'r' => some [two .hour12, .literal ':', two .minute, .literal ':', two .second,
      .literal ' ', .halfDay true]
  | 'c' => some [.weekdayName true, .literal ' ', .monthName true, .literal ' ',
      .number .day .space, .literal ' ', two .hour, .literal ':', two .minute, .literal ':',
      two .second, .literal ' ', two .year]
  | 'Z' | 'z' | '+' => some [.zone]
  | 'n' => some [.literal '\n']
  | 't' => some [.literal '\t']
  | '%' => some [.literal '%']
  | _ => none

/-- A padding can be chosen for a single number only. -/
def withPadding? (padding : Padding) : List Item → Option (List Item)
  | [.number field _] => some [.number field padding]
  | _ => none

private def places? : Char → Option Nat
  | '3' => some 3
  | '6' => some 6
  | '9' => some 9
  | _ => none

end Item

/-- The items after a percent sign and the pattern behind them. -/
def specifier? : List Char → Option (List Item × List Char)
  | '-' :: c :: rest => padded .none c rest
  | '0' :: c :: rest => padded .zero c rest
  | '_' :: c :: rest => padded .space c rest
  | '#' :: 'z' :: rest => some ([.zone], rest)
  | ':' :: ':' :: ':' :: 'z' :: rest => some ([.zone], rest)
  | ':' :: ':' :: 'z' :: rest => some ([.zone], rest)
  | ':' :: 'z' :: rest => some ([.zone], rest)
  | '.' :: 'f' :: rest => some ([.fraction], rest)
  | '.' :: c :: 'f' :: rest => (Item.places? c).map fun n => ([.fixedFraction true n], rest)
  | c :: rest =>
      match Item.ofLetter? c with
      | some items => some (items, rest)
      | none =>
          match rest with
          | 'f' :: rest => (Item.places? c).map fun n => ([.fixedFraction false n], rest)
          | _ => none
  | [] => none
where
  padded (padding : Padding) (c : Char) (rest : List Char) : Option (List Item × List Char) :=
    ((Item.ofLetter? c).bind (Item.withPadding? padding)).map (·, rest)

private theorem padded_shorter {padding : Padding} {c : Char} {rest remaining : List Char}
    {items : List Item} (found : specifier?.padded padding c rest = some (items, remaining)) :
    remaining = rest := by
  unfold specifier?.padded at found
  obtain ⟨_, _, same⟩ := Option.map_eq_some_iff.1 found
  exact (Prod.mk.inj same).2.symm

theorem specifier?_shorter {text remaining : List Char} {items : List Item}
    (found : specifier? text = some (items, remaining)) : remaining.length < text.length := by
  unfold specifier? at found
  split at found <;> try
    first
    | (rw [padded_shorter found]; simp only [List.length_cons]; omega)
    | (simp only [Option.some.injEq, Prod.mk.injEq] at found
       rw [← found.2]; simp only [List.length_cons]; omega)
  · obtain ⟨_, _, same⟩ := Option.map_eq_some_iff.1 found
    rw [← (Prod.mk.inj same).2]
    simp only [List.length_cons]
    omega
  · split at found
    · simp only [Option.some.injEq, Prod.mk.injEq] at found
      rw [← found.2]
      simp
    · split at found
      · obtain ⟨_, _, same⟩ := Option.map_eq_some_iff.1 found
        rw [← (Prod.mk.inj same).2]
        simp only [List.length_cons]
        omega
      · cases found
  · cases found

/-- The items of a pattern, none where a percent sign is not followed by a known letter. -/
def patternItems? : List Char → Option (List Item)
  | [] => some []
  | '%' :: rest =>
      match found : specifier? rest with
      | none => none
      | some (items, remaining) =>
          have : remaining.length < rest.length := specifier?_shorter found
          (patternItems? remaining).map (items ++ ·)
  | c :: rest => (patternItems? rest).map (.literal c :: ·)
termination_by text => text.length

/-! Writing the items. -/

/-- The two characters of a number below 256. The tens go on after nine with the characters
that follow the digits. -/
def twoPlaces (padding : Padding) (n : Nat) : List Char :=
  let ones := Nat.digitChar (n % 10)
  if n < 10 then
    match padding with
    | .none => [ones]
    | .zero => ['0', ones]
    | .space => [' ', ones]
  else [Char.ofNat ('0'.toNat + n / 10), ones]

/-- A number in at least `width` characters. Zeros stand between the sign and the digits,
spaces before the sign. -/
def inWidth (padding : Padding) (width : Nat) (signed : Bool) (n : Int) : List Char :=
  let sign := if n < 0 then ['-'] else if signed then ['+'] else []
  let digits := Nat.toDigits 10 n.natAbs
  let missing := width - (sign.length + digits.length)
  match padding with
  | .none => sign ++ digits
  | .zero => sign ++ List.replicate missing '0' ++ digits
  | .space => List.replicate missing ' ' ++ sign ++ digits

def yearInWidth (padding : Padding) (year : Int) : List Char :=
  if 0 ≤ year ∧ year < 10000 then inWidth padding 4 false year
  else inWidth padding 5 true year

private def hourOnDial (hour : Nat) : Nat := if hour % 12 = 0 then 12 else hour % 12

def Field.write (padding : Padding) (t : DateTime) : Field → List Char
  | .year => yearInWidth padding t.date.year
  | .century => twoPlaces padding (t.date.year / 100 % 256).toNat
  | .yearOfCentury => twoPlaces padding (t.date.year % 100).toNat
  | .isoYear => yearInWidth padding t.date.isoWeek.1
  | .isoYearOfCentury => twoPlaces padding (t.date.isoWeek.1 % 100).toNat
  | .quarter => [Nat.digitChar t.date.quarter]
  | .month => twoPlaces padding t.date.month
  | .day => twoPlaces padding t.date.day
  | .dayOfYear => inWidth padding 3 false t.date.ordinal
  | .weekFromSunday => twoPlaces padding (t.date.weekFrom 6)
  | .weekFromMonday => twoPlaces padding (t.date.weekFrom 0)
  | .isoWeek => twoPlaces padding t.date.isoWeek.2
  | .daysFromSunday => [Nat.digitChar ((t.date.weekday + 1) % 7)]
  | .weekdayNumber => [Nat.digitChar (t.date.weekday + 1)]
  | .hour => twoPlaces padding t.clock.hour
  | .hour12 => twoPlaces padding (hourOnDial t.clock.hour)
  | .minute => twoPlaces padding t.clock.minute
  | .second => twoPlaces padding t.clock.second
  | .nanosecond => inWidth padding 9 false t.clock.nanosecond
  | .timestamp => inWidth padding 9 false t.timestamp

def monthName (month : Nat) : String :=
  match month with
  | 1 => "January" | 2 => "February" | 3 => "March" | 4 => "April" | 5 => "May" | 6 => "June"
  | 7 => "July" | 8 => "August" | 9 => "September" | 10 => "October" | 11 => "November"
  | _ => "December"

/-- Named from zero for Monday. -/
def weekdayName (weekday : Nat) : String :=
  match weekday with
  | 0 => "Monday" | 1 => "Tuesday" | 2 => "Wednesday" | 3 => "Thursday" | 4 => "Friday"
  | 5 => "Saturday" | _ => "Sunday"

private def named (short : Bool) (name : String) : List Char :=
  if short then name.toList.take 3 else name.toList

def Item.write? (t : DateTime) : Item → Option (List Char)
  | .literal c => some [c]
  | .number field padding => some (field.write padding t)
  | .monthName short => some (named short (Calendar.monthName t.date.month))
  | .weekdayName short => some (named short (Calendar.weekdayName t.date.weekday))
  | .halfDay upper =>
      some (match upper, decide (12 ≤ t.clock.hour) with
        | true, true => ['P', 'M']
        | true, false => ['A', 'M']
        | false, true => ['p', 'm']
        | false, false => ['a', 'm'])
  | .fraction => some (fractionText t.clock.nanosecond)
  | .fixedFraction point places =>
      let digits := padded places (t.clock.nanosecond / Nat.pow 10 (9 - places))
      some (if point then '.' :: digits else digits)
  | .zone => none

def writeItems? (t : DateTime) : List Item → Option (List Char)
  | [] => some []
  | item :: rest => do
      let front ← item.write? t
      let back ← writeItems? t rest
      return front ++ back

/-- Whether every percent sign of a pattern is followed by a known letter. -/
def isPattern (pattern : String) : Bool := (patternItems? pattern.toList).isSome

/-- A date in a pattern, none where the pattern cannot be read or asks for a time zone. -/
def DateTime.format? (t : DateTime) (pattern : String) : Option String := do
  let items ← patternItems? pattern.toList
  let text ← writeItems? t items
  return String.ofList text

/-- The year, month and day, and the clock to the second. -/
def DateTime.standard (t : DateTime) : String :=
  String.ofList (yearText t.date.year ++ '-' :: padded 2 t.date.month ++ '-' ::
    padded 2 t.date.day ++ ' ' :: padded 2 t.clock.hour ++ ':' :: padded 2 t.clock.minute
    ++ ':' :: padded 2 t.clock.second)

end Stencil.Calendar
