/-! Days of the proleptic Gregorian calendar. -/

namespace Stencil.Calendar

def isLeap (year : Int) : Bool :=
  year % 4 == 0 && (year % 100 != 0 || year % 400 == 0)

def daysInMonth (year : Int) (month : Nat) : Nat :=
  match month with
  | 1 | 3 | 5 | 7 | 8 | 10 | 12 => 31
  | 4 | 6 | 9 | 11 => 30
  | 2 => if isLeap year then 29 else 28
  | _ => 0

/-- The years that dates are kept for. -/
def firstYear : Int := -262143

def lastYear : Int := 262142

structure Date where
  year : Int
  month : Nat
  day : Nat
  year_kept : firstYear ≤ year ∧ year ≤ lastYear
  day_exists : 1 ≤ day ∧ day ≤ daysInMonth year month
  deriving DecidableEq

namespace Date

def of? (year : Int) (month day : Nat) : Option Date :=
  if kept : firstYear ≤ year ∧ year ≤ lastYear then
    if found : 1 ≤ day ∧ day ≤ daysInMonth year month then some ⟨year, month, day, kept, found⟩
    else none
  else none

theorem of?_self (d : Date) : of? d.year d.month d.day = some d := by
  simp [of?, d.year_kept, d.day_exists]

theorem month_between (d : Date) : 1 ≤ d.month ∧ d.month ≤ 12 := by
  have found := d.day_exists
  unfold daysInMonth at found
  split at found <;> omega

instance : Inhabited Date := ⟨⟨1970, 1, 1, by decide, by decide⟩⟩

/-- The number of days in the months before. -/
def daysBefore (year : Int) : Nat → Nat
  | 0 => 0
  | month + 1 => daysBefore year month + daysInMonth year month

/-- The day of the year, counted from one. -/
def ordinal (d : Date) : Nat := daysBefore d.year d.month + d.day

/-- Days since the first of January of the year one. -/
def dayNumber (d : Date) : Int :=
  let past := d.year - 1
  365 * past + past / 4 - past / 100 + past / 400 + d.ordinal - 1

/-- Zero for Monday. The first of January of the year one is a Monday. -/
def weekday (d : Date) : Nat := (d.dayNumber % 7).toNat

def quarter (d : Date) : Nat := (d.month - 1) / 3 + 1

/-- The week of the year when weeks start on the given weekday. The days before the first
such day are in week zero. -/
def weekFrom (start : Nat) (d : Date) : Nat :=
  (d.ordinal + 6 - (d.weekday + 7 - start) % 7) / 7

/-- The weeks of a year that are counted by the Thursdays in them. -/
def isoWeeksIn (year : Int) : Nat :=
  let past := year - 1
  let newYear := (365 * past + past / 4 - past / 100 + past / 400) % 7
  if newYear == 3 || (newYear == 2 && isLeap year) then 53 else 52

/-- The year and the number of the week that holds this week's Thursday. -/
def isoWeek (d : Date) : Int × Nat :=
  let week : Int := ((d.ordinal : Int) - (d.weekday + 1) + 10) / 7
  if week < 1 then (d.year - 1, isoWeeksIn (d.year - 1))
  else if (isoWeeksIn d.year : Int) < week then (d.year + 1, 1)
  else (d.year, week.toNat)

end Date

end Stencil.Calendar
