import Stencil.Calendar.Interchange
import Stencil.Proofs.Calendar.DateTime

/-! Dates and clock readings in full width are read back by all ways of reading them. -/

namespace Stencil.Calendar

open Numeral

/-! ### Fields of a fixed width -/

theorem fixed?_append {digits : List Char} (all : ∀ c ∈ digits, c.isDigit = true)
    (rest : List Char) : fixed? digits.length (digits ++ rest) = some (digits, rest) := by
  induction digits with
  | nil => rfl
  | cons c digits ih =>
      have first : c.isDigit = true := all c (List.mem_cons_self ..)
      have others := ih fun d member => all d (List.mem_cons_of_mem _ member)
      rw [List.length_cons, List.cons_append, fixed?, if_pos first, others, Option.map_some]

theorem fixed?_eq_none {width : Nat} {digits rest : List Char} (short : digits.length < width)
    (ends : EndsDigits rest) : fixed? width (digits ++ rest) = none := by
  induction digits generalizing width with
  | nil =>
      obtain ⟨width, rfl⟩ := Nat.exists_eq_add_one.2 short
      cases rest with
      | nil => rfl
      | cons c behind => rw [List.nil_append, fixed?, ends c rfl, if_neg Bool.false_ne_true]
  | cons c digits ih =>
      obtain ⟨width, rfl⟩ := Nat.exists_eq_add_one.2 (Nat.zero_lt_of_lt short)
      have others := ih (Nat.lt_of_succ_lt_succ short)
      rw [List.cons_append, fixed?, others]
      split <;> rfl

theorem number?_padded {width n : Nat} (positive : 0 < width) (fits : n < 10 ^ width)
    (rest : List Char) : number? width (padded width n ++ rest) = some (n, rest) := by
  have digits : ∀ c ∈ padded width n, c.isDigit = true := fun c => isDigit_of_mem_padded
  have read := fixed?_append digits rest
  rw [length_padded positive fits] at read
  rw [number?, read, Option.map_some]
  exact congrArg (fun n => some (n, rest)) (ofDigitChars_padded width n)

theorem number?_eq_none {width : Nat} {digits rest : List Char} (short : digits.length < width)
    (ends : EndsDigits rest) : number? width (digits ++ rest) = none := by
  rw [number?, fixed?_eq_none short ends, Option.map_none]

theorem mark?_self (mark : Char) (rest : List Char) : mark? mark (mark :: rest) = some rest :=
  if_pos rfl

theorem mark?_eq_none {mark : Char} {text : List Char} (other : text.head? ≠ some mark) :
    mark? mark text = none := by
  cases text with
  | nil => rfl
  | cons c rest => exact if_neg fun same => other (congrArg some same)

/-! ### Dates -/

/-- A way to read a field that gets along with both digits of it. -/
def ReadsTwo (field? : List Char → Option (Nat × List Char)) : Prop :=
  ∀ n rest, n < 100 → field? (padded 2 n ++ rest) = some (n, rest)

theorem readsTwo_number? : ReadsTwo (number? 2) :=
  fun _ rest two => number?_padded (by decide) two rest

theorem readsTwo_field? : ReadsTwo field? := fun _ rest two => field?_padded two rest

/-- A way to read a year that gets along with its written form. -/
def ReadsYear (year? : List Char → Option (Int × List Char)) (year : Int) : Prop :=
  ∀ rest, year? (yearText year ++ '-' :: rest) = some (year, '-' :: rest)

theorem readsYear_takeYear? (year : Int) : ReadsYear takeYear? year := takeYear?_yearText year

theorem readsYear_fixedYear? {year : Int} (four : 0 ≤ year ∧ year ≤ 9999) :
    ReadsYear fixedYear? year := by
  intro rest
  have plain : yearText year = padded 4 year.natAbs := by
    rw [yearText, if_neg (by omega), if_neg (by omega)]
  have fits : year.natAbs < 10 ^ 4 := by omega
  rw [plain, fixedYear?, number?_padded (by decide) fits, Option.map_some]
  exact congrArg (fun y => some (y, '-' :: rest)) (by omega : (year.natAbs : Int) = year)

section

variable {year? : List Char → Option (Int × List Char)} {field? : List Char → Option (Nat × List Char)}

theorem dateIn?_toText {d : Date} (year : ReadsYear year? d.year) (two : ReadsTwo field?)
    (rest : List Char) : dateIn? year? field? (d.toText ++ rest) = some (d, rest) := by
  have month : d.month < 100 := Nat.lt_of_le_of_lt d.month_between.2 (by decide)
  have day : d.day < 100 := Nat.lt_of_le_of_lt d.day_le (by decide)
  rw [Date.toText, List.append_assoc, List.append_assoc, List.cons_append, List.cons_append]
  simp only [dateIn?, year _, Option.bind_eq_bind, Option.bind_some, mark?_self,
    two _ _ month, two _ _ day, Date.of?_self]
  rfl

/-! ### Clock readings -/

/-- Where the seconds are, behind the hour and the minute. -/
theorem clockIn?_minutes (two : ReadsTwo field?) {hour minute : Nat} (hourFits : hour < 100)
    (minuteFits : minute < 100) (rest : List Char) :
    clockIn? field? (padded 2 hour ++ ':' :: padded 2 minute ++ rest) =
      (mark? ':' rest).bind fun text => (field? text).bind fun (second, text) =>
        (fraction? text).bind fun (nanosecond, text) =>
          (Clock.of? hour minute second nanosecond).bind fun clock => some (clock, text) := by
  rw [List.append_assoc, List.cons_append]
  simp only [clockIn?, Option.bind_eq_bind, two _ _ hourFits, two _ _ minuteFits,
    Option.bind_some, mark?_self]
  rfl

theorem clockIn?_of_not_mark (two : ReadsTwo field?) {hour minute : Nat} (hourFits : hour < 100)
    (minuteFits : minute < 100) {rest : List Char} (other : rest.head? ≠ some ':') :
    clockIn? field? (padded 2 hour ++ ':' :: padded 2 minute ++ rest) = none := by
  rw [clockIn?_minutes two hourFits minuteFits, mark?_eq_none other, Option.bind_none]

theorem clockIn?_of_fraction (two : ReadsTwo field?) {c : Clock} {fraction rest : List Char}
    (part : fraction? (fraction ++ rest) = some (c.nanosecond, rest)) :
    clockIn? field? (padded 2 c.hour ++ ':' :: padded 2 c.minute ++
      (':' :: padded 2 c.second ++ (fraction ++ rest))) = some (c, rest) := by
  obtain ⟨hour, minute, second, -⟩ := c.reading
  have hourFits : c.hour < 100 := by omega
  have minuteFits : c.minute < 100 := by omega
  have secondFits : c.second < 100 := by omega
  rw [clockIn?_minutes two hourFits minuteFits, List.cons_append]
  simp only [mark?_self, two _ _ secondFits, part, Clock.of?_self, Option.bind_some]

end

/-! ### Offsets -/

theorem skipOffset?_of_sign {sign : Char} (known : sign = '+' ∨ sign = '-') {hours minutes : Nat}
    (day : hours < 24) (hour : minutes < 60) :
    skipOffset? (sign :: padded 2 hours ++ ':' :: padded 2 minutes) = some [] := by
  have other : ¬(decide (sign = 'Z') || decide (sign = 'z')) = true := by
    rcases known with rfl | rfl <;> decide
  have signed : (decide (sign = '+') || decide (sign = '-') || decide (sign = '−')) = true := by
    rcases known with rfl | rfl <;> decide
  have least : (decide (hours < 24) && decide (minutes < 60)) = true := by
    rw [decide_eq_true day, decide_eq_true hour]
    rfl
  have last : number? 2 (padded 2 minutes) = some (minutes, []) := by
    have read := readsTwo_number? minutes [] (by omega)
    rwa [List.append_nil] at read
  rw [List.cons_append, skipOffset?, if_neg other, if_pos signed]
  simp only [readsTwo_number? hours _ (by omega), mark?_self, last, Option.bind_eq_bind,
    Option.bind_some, if_pos least]

/-! ### Whole texts -/

theorem whole?_eq_some {α : Type} {read? : List Char → Option (α × List Char)} {text : List Char}
    {found : α} (taken : read? text = some (found, [])) : whole? read? text = some found := by
  rw [whole?, taken]
  rfl

theorem whole?_eq_none {α : Type} {read? : List Char → Option (α × List Char)} {text : List Char}
    (failed : read? text = none) : whole? read? text = none := by
  rw [whole?, failed]
  rfl

theorem ofRfc3339?_day {d : Date} (four : 0 ≤ d.year ∧ d.year ≤ 9999) (rest : List Char) :
    DateTime.ofRfc3339? (d.toText ++ 'T' :: rest) =
      whole? (fun text => (clockIn? (number? 2) text).bind fun (clock, text) =>
        (skipOffset? text).bind fun text => some ((⟨d, clock⟩ : DateTime), text)) rest := by
  have date := dateIn?_toText (readsYear_fixedYear? four) readsTwo_number? ('T' :: rest)
  simp only [DateTime.ofRfc3339?, whole?, date, Option.bind_eq_bind, Option.bind_some, timeMark?]
  rfl

theorem ofLocal?_day (d : Date) (rest : List Char) :
    DateTime.ofLocal? (d.toText ++ 'T' :: rest) =
      whole? (fun text => (clockIn? field? text).bind fun (clock, text) =>
        some ((⟨d, clock⟩ : DateTime), text)) rest := by
  have date := dateIn?_toText (readsYear_takeYear? d.year) readsTwo_field? ('T' :: rest)
  simp only [DateTime.ofLocal?, whole?, date, Option.bind_eq_bind, Option.bind_some, mark?_self]
  rfl

end Stencil.Calendar
