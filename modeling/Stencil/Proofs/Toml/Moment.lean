import Stencil.Proofs.Calendar.Interchange
import Stencil.Toml.Moment

/-! What the dates and times of TOML become as data, which is what their written forms are read as:
a day is its midnight, a date-time with seconds is its local reading whatever the offset, and all
others stay text. -/

namespace Stencil.Toml

open Calendar Numeral

/-! ### Fractions of a second -/

/-- Only zeros are left out. -/
theorem exists_trimZeros_append (digits : List Char) :
    ∃ count, digits = trimZeros digits ++ List.replicate count '0' := by
  have zeros : ∀ c ∈ digits.reverse.takeWhile (· == '0'), c = '0' := fun c member =>
    eq_of_beq (List.all_eq_true.1 List.all_takeWhile c member)
  refine ⟨(digits.reverse.takeWhile (· == '0')).length, ?_⟩
  calc digits
      = (digits.reverse.takeWhile (· == '0') ++ digits.reverse.dropWhile (· == '0')).reverse := by
        rw [List.takeWhile_append_dropWhile, List.reverse_reverse]
    _ = trimZeros digits ++ (digits.reverse.takeWhile (· == '0')).reverse := List.reverse_append
    _ = trimZeros digits ++ List.replicate (digits.reverse.takeWhile (· == '0')).length '0' := by
        conv_lhs => rw [List.eq_replicate_of_mem zeros, List.reverse_replicate]

theorem ofDigitChars_append_zeros (digits : List Char) (count : Nat) :
    Nat.ofDigitChars 10 (digits ++ List.replicate count '0') 0 =
      Nat.ofDigitChars 10 digits 0 * 10 ^ count := by
  rw [Nat.ofDigitChars_append, Nat.ofDigitChars_replicate_zero, Nat.mul_comm]

theorem isDigit_of_mem_fractionDigits {n : Nat} {c : Char} (member : c ∈ fractionDigits n) :
    c.isDigit = true := by
  unfold fractionDigits at member
  dsimp only at member
  split at member
  · rw [List.mem_singleton.1 member]
    rfl
  · obtain ⟨count, whole⟩ := exists_trimZeros_append (padded 9 n)
    have inside : c ∈ padded 9 n := by
      rw [whole]
      exact List.mem_append_left _ member
    exact isDigit_of_mem_padded inside

theorem fractionDigits_ne_nil (n : Nat) : fractionDigits n ≠ [] := by
  unfold fractionDigits
  dsimp only
  split
  · exact List.cons_ne_nil _ _
  · rename_i nonempty
    exact fun empty => nonempty (List.isEmpty_iff.2 empty)

/-- The zeros that are left out do not count. -/
theorem nanoseconds_fractionDigits {n : Nat} (part : n < 1000000000) :
    nanoseconds (fractionDigits n) = n := by
  have width : (padded 9 n).length = 9 := length_padded (by decide) part
  obtain ⟨count, whole⟩ := exists_trimZeros_append (padded 9 n)
  have value := ofDigitChars_append_zeros (trimZeros (padded 9 n)) count
  rw [whole, List.length_append, List.length_replicate] at width
  rw [← whole, ofDigitChars_padded] at value
  unfold fractionDigits
  dsimp only
  split
  · rename_i empty
    rw [List.isEmpty_iff.1 empty] at value
    exact (value.trans (Nat.zero_mul _)).symm
  · have places : 9 - (trimZeros (padded 9 n)).length = count := by omega
    rw [nanoseconds, List.take_of_length_le (by omega), places]
    exact value.symm

/-- The text does not go on with a part of a time. -/
def EndsTime (rest : List Char) : Prop :=
  ∀ c ∈ rest.head?, c.isDigit = false ∧ c ≠ '.' ∧ c ≠ ':'

theorem endsTime_offset (offset : Option Offset) :
    EndsTime ((offset.map Offset.toText).getD []) := by
  intro c first
  cases offset with
  | none => cases first
  | some offset =>
      cases offset with
      | utc =>
          cases first
          decide
      | minutes east within =>
          rw [Option.map_some, Option.getD_some, Offset.toText] at first
          by_cases west : east < 0
          · rw [if_pos west] at first
            cases first
            decide
          · rw [if_neg west] at first
            cases first
            decide

theorem fraction?_fractionText {nanosecond : Option Nat} (part : nanosecond.getD 0 < 1000000000)
    {rest : List Char} (ends : EndsTime rest) :
    fraction? (fractionText nanosecond ++ rest) = some (nanosecond.getD 0, rest) := by
  cases nanosecond with
  | none =>
      unfold fraction?
      split
      · rename_i behind same
        exact absurd rfl (ends '.' (congrArg List.head? same)).2.1
      · rfl
  | some n =>
      have digits := takeWhile_append_of_endsDigits
        (fun c => isDigit_of_mem_fractionDigits (n := n)) fun c first => (ends c first).1
      have some : (fractionDigits n).isEmpty = false :=
        List.isEmpty_eq_false_iff.2 (fractionDigits_ne_nil n)
      rw [Option.getD_some] at part ⊢
      rw [fractionText, List.cons_append, fraction?, digits, some, if_neg Bool.false_ne_true,
        List.drop_left, nanoseconds_fractionDigits part]

/-! ### Times -/

/-- The clock reading of a time with its seconds. What is not written of them is zero. -/
def TimeOfDay.reading (t : TimeOfDay) (s : Seconds) : Clock where
  hour := t.hour
  minute := t.minute
  second := s.whole
  nanosecond := s.nanosecond.getD 0
  reading := ⟨t.within.1, t.within.2, s.within⟩

section

variable {field? : List Char → Option (Nat × List Char)} {t : TimeOfDay} {rest : List Char}

theorem clockIn?_toText (two : ReadsTwo field?) {s : Seconds} (written : t.seconds = some s)
    (ends : EndsTime rest) : clockIn? field? (t.toText ++ rest) = some (t.reading s, rest) := by
  have part := fraction?_fractionText s.within.2 ends
  rw [TimeOfDay.toText, written, Option.map_some, Option.getD_some, Seconds.toText,
    List.append_assoc, List.append_assoc (':' :: padded 2 s.whole)]
  have read : fraction? (fractionText s.nanosecond ++ rest) =
      some ((t.reading s).nanosecond, rest) := part
  exact clockIn?_of_fraction two read

theorem clockIn?_toText_of_none (two : ReadsTwo field?) (absent : t.seconds = none)
    (ends : EndsTime rest) : clockIn? field? (t.toText ++ rest) = none := by
  have hour : t.hour < 100 := Nat.lt_trans t.within.1 (by decide)
  have minute : t.minute < 100 := Nat.lt_trans t.within.2 (by decide)
  rw [TimeOfDay.toText, absent, Option.map_none, Option.getD_none, List.append_nil]
  exact clockIn?_of_not_mark two hour minute fun mark => (ends ':' mark).2.2 rfl

end

theorem skipOffset?_toText (offset : Offset) : skipOffset? offset.toText = some [] := by
  cases offset with
  | utc => rfl
  | minutes east within =>
      have sign : (if east < 0 then '-' else '+') = '+' ∨ (if east < 0 then '-' else '+') = '-' := by
        split
        · exact .inr rfl
        · exact .inl rfl
      exact skipOffset?_of_sign sign (by omega) (by omega)

/-! ### Moments -/

theorem toValue_date (day : Day) : (Moment.date day).toValue = .date (.ofDate day.toDate) := by
  have fixed := dateIn?_toText (readsYear_fixedYear? day.four_digits) readsTwo_number? []
  have plain := dateIn?_toText (readsYear_takeYear? day.year) readsTwo_field? []
  rw [List.append_nil] at fixed plain
  have offset : DateTime.ofRfc3339? day.toDate.toText = none := by
    simp only [DateTime.ofRfc3339?, whole?, fixed, Option.bind_eq_bind, Option.bind_some,
      timeMark?, Option.bind_none]
  have clock : DateTime.ofLocal? day.toDate.toText = none := by
    simp only [DateTime.ofLocal?, whole?, plain, Option.bind_eq_bind, Option.bind_some,
      mark?, Option.bind_none]
  have found : Date.ofLocal? day.toDate.toText = some day.toDate := whole?_eq_some plain
  rw [Moment.toValue, Moment.toText, valueOfText, offset, clock, found]

theorem toValue_time (clock : TimeOfDay) :
    (Moment.time clock).toValue = .text (String.ofList clock.toText) := by
  obtain ⟨rest, split⟩ : ∃ rest, clock.toText = padded 2 clock.hour ++ ':' :: rest :=
    ⟨_, by rw [TimeOfDay.toText, List.append_assoc, List.cons_append]⟩
  have ends : EndsDigits (':' :: rest) := endsDigits_cons (by decide) rest
  have hour : clock.hour < 10 ^ 2 := Nat.lt_trans clock.within.1 (by decide)
  have width := length_padded (by decide) hour
  -- The hour is too short for a year of four digits, and no hyphen stands behind it.
  have fixed : dateIn? fixedYear? (number? 2) clock.toText = none := by
    rw [dateIn?, split, fixedYear?, number?_eq_none (by omega) ends]
    rfl
  have plain : dateIn? takeYear? field? clock.toText = none := by
    have year : takeYear? (padded 2 clock.hour ++ ':' :: rest) =
        some ((clock.hour : Int), ':' :: rest) := takeYear?_padded (by omega) (.inr ends)
    have colon : mark? '-' (':' :: rest) = none := rfl
    rw [dateIn?, split, year, Option.bind_eq_bind, Option.bind_some]
    dsimp only
    rw [colon, Option.bind_eq_bind, Option.bind_none]
  have offset : DateTime.ofRfc3339? clock.toText = none := whole?_eq_none (by rw [fixed]; rfl)
  have reading : DateTime.ofLocal? clock.toText = none := whole?_eq_none (by rw [plain]; rfl)
  have day : Date.ofLocal? clock.toText = none := whole?_eq_none plain
  rw [Moment.toValue, Moment.toText, valueOfText, offset, reading, day]

/-- The reading does not depend on the offset. -/
theorem toValue_dateTime (day : Day) {clock : TimeOfDay} {s : Seconds}
    (written : clock.seconds = some s) (offset : Option Offset) :
    (Moment.dateTime day clock offset).toValue = .date ⟨day.toDate, clock.reading s⟩ := by
  cases offset with
  | none =>
      have fixed := clockIn?_toText readsTwo_number? written (endsTime_offset none)
      have plain := clockIn?_toText readsTwo_field? written (endsTime_offset none)
      have offset : DateTime.ofRfc3339? (Moment.dateTime day clock none).toText = none := by
        rw [Moment.toText, List.append_assoc, List.cons_append, ofRfc3339?_day day.four_digits]
        apply whole?_eq_none
        rw [fixed]
        rfl
      have found : DateTime.ofLocal? (Moment.dateTime day clock none).toText =
          some ⟨day.toDate, clock.reading s⟩ := by
        rw [Moment.toText, List.append_assoc, List.cons_append, ofLocal?_day]
        apply whole?_eq_some
        rw [plain]
        rfl
      rw [Moment.toValue, valueOfText, offset, found]
  | some offset =>
      have fixed := clockIn?_toText readsTwo_number? written (endsTime_offset (some offset))
      have found : DateTime.ofRfc3339? (Moment.dateTime day clock (some offset)).toText =
          some ⟨day.toDate, clock.reading s⟩ := by
        rw [Moment.toText, List.append_assoc, List.cons_append, ofRfc3339?_day day.four_digits]
        apply whole?_eq_some
        rw [fixed, Option.bind_some]
        dsimp only
        rw [Option.map_some, Option.getD_some, skipOffset?_toText, Option.bind_some]
      rw [Moment.toValue, valueOfText, found]

/-- Without seconds there is no reading that is understood. -/
theorem toValue_dateTime_of_none (day : Day) {clock : TimeOfDay} (absent : clock.seconds = none)
    (offset : Option Offset) : (Moment.dateTime day clock offset).toValue =
      .text (String.ofList (Moment.dateTime day clock offset).toText) := by
  have fixed := clockIn?_toText_of_none readsTwo_number? absent (endsTime_offset offset)
  have plain := clockIn?_toText_of_none readsTwo_field? absent (endsTime_offset offset)
  have date := dateIn?_toText (readsYear_takeYear? day.year) readsTwo_field?
    ('T' :: clock.toText ++ (offset.map Offset.toText).getD [])
  rw [← List.append_assoc] at date
  have readings : DateTime.ofRfc3339? (Moment.dateTime day clock offset).toText = none ∧
      DateTime.ofLocal? (Moment.dateTime day clock offset).toText = none := by
    rw [Moment.toText, List.append_assoc, List.cons_append, ofRfc3339?_day day.four_digits,
      ofLocal?_day]
    refine ⟨whole?_eq_none ?_, whole?_eq_none ?_⟩
    · rw [fixed, Option.bind_none]
    · rw [plain, Option.bind_none]
  have found : Date.ofLocal? (Moment.dateTime day clock offset).toText = none := by
    rw [Date.ofLocal?, whole?, Moment.toText, date]
    rfl
  rw [Moment.toValue, valueOfText, readings.1, readings.2, found]

end Stencil.Toml
