import Mathlib
import Stencil.Calendar.DateTime
import Stencil.Proofs.Decimal.Digits

/-! Dates are read back as they are written, with every year that is kept, leap seconds and every
fraction of a second. -/

namespace Stencil.Calendar

open Numeral

/-! ### Fields of digits -/

theorem isDigit_of_mem_padded {width n : Nat} {c : Char} (member : c ∈ padded width n) :
    c.isDigit = true := by
  rcases List.mem_append.1 member with zero | digit
  · rw [List.eq_of_mem_replicate zero]
    rfl
  · exact isDigit_of_mem_toDigits digit

theorem ofDigitChars_padded (width n : Nat) : Nat.ofDigitChars 10 (padded width n) 0 = n := by
  rw [padded, Nat.ofDigitChars_append, Nat.ofDigitChars_replicate_zero,
    Nat.mul_zero, Nat.ofDigitChars_ten_toDigits]

theorem padded_ne_nil (width n : Nat) : padded width n ≠ [] :=
  List.append_ne_nil_of_right_ne_nil _ Nat.toDigits_ne_nil

theorem length_padded {width n : Nat} (positive : 0 < width) (fits : n < 10 ^ width) :
    (padded width n).length = width := by
  have short := (Nat.length_toDigits_le_iff (by decide) positive).2 fits
  rw [padded, List.length_append, List.length_replicate]
  omega

/-- A field of digits ends where it is full, or where the text goes on with something else. -/
theorem takeNumber?_padded {places width n : Nat} {rest : List Char}
    (fits : (padded places n).length ≤ width)
    (ends : (padded places n).length = width ∨ EndsDigits rest) :
    takeNumber? width (padded places n ++ rest) = some (n, rest) := by
  have digits : (padded places n ++ rest.take (width - (padded places n).length)).takeWhile
      Char.isDigit = padded places n := by
    apply takeWhile_append_of_endsDigits fun c => isDigit_of_mem_padded
    rcases ends with full | ends
    · rw [full, Nat.sub_self]
      exact fun c nothing => nomatch nothing
    · intro c first
      rw [List.head?_take] at first
      split at first
      · cases first
      · exact ends c first
  rw [takeNumber?, List.take_append, List.take_of_length_le fits, digits, List.drop_left,
    ofDigitChars_padded]
  exact if_neg fun empty => padded_ne_nil places n (List.isEmpty_iff.1 empty)

theorem isBlank_of_isDigit {c : Char} (digit : c.isDigit = true) : Text.isBlank c = false := by
  have between : 48 ≤ c.toNat ∧ c.toNat ≤ 57 := by
    simpa [Char.isDigit, UInt32.le_iff_toNat_le] using digit
  simp only [Text.isBlank, Bool.or_eq_false_iff, Bool.and_eq_false_iff, beq_eq_false_iff_ne,
    decide_eq_false_iff_not]
  omega

theorem skipBlanks_cons {c : Char} (solid : Text.isBlank c = false) (rest : List Char) :
    skipBlanks (c :: rest) = c :: rest := by
  rw [skipBlanks, List.dropWhile_cons_of_neg (by rw [solid]; exact Bool.false_ne_true)]

theorem skipBlanks_padded (width n : Nat) (rest : List Char) :
    skipBlanks (padded width n ++ rest) = padded width n ++ rest := by
  obtain ⟨c, behind, digits⟩ := List.exists_cons_of_ne_nil (padded_ne_nil width n)
  have first : c ∈ padded width n := by
    rw [digits]
    exact List.mem_cons_self ..
  rw [digits, List.cons_append, skipBlanks_cons (isBlank_of_isDigit (isDigit_of_mem_padded first))]

theorem field?_padded {n : Nat} (two : n < 100) (rest : List Char) :
    field? (padded 2 n ++ rest) = some (n, rest) := by
  have full := length_padded (by decide : 0 < 2) two
  rw [field?, skipBlanks_padded, takeNumber?_padded (Nat.le_of_eq full) (.inl full)]

theorem separator?_self {mark : Char} (solid : Text.isBlank mark = false) (rest : List Char) :
    separator? mark (mark :: rest) = some rest := by
  rw [separator?, skipBlanks_cons solid]
  exact if_pos rfl

/-! ### Dates -/

theorem endsDigits_cons {c : Char} (other : c.isDigit = false) (rest : List Char) :
    EndsDigits (c :: rest) := fun _ same => Option.some.inj same ▸ other

/-- A year behind a sign is read up to the next mark. -/
theorem takeNumber?_year (n : Nat) (rest : List Char) :
    takeNumber? (padded 4 n ++ '-' :: rest).length (padded 4 n ++ '-' :: rest) =
      some (n, '-' :: rest) :=
  takeNumber?_padded (by rw [List.length_append]; exact Nat.le_add_right ..)
    (.inr (endsDigits_cons (by decide) rest))

/-- A year without a sign ends after four digits, or where the text goes on with something else. -/
theorem takeYear?_padded {places n : Nat} {rest : List Char} (fits : (padded places n).length ≤ 4)
    (ends : (padded places n).length = 4 ∨ EndsDigits rest) :
    takeYear? (padded places n ++ rest) = some ((n : Int), rest) := by
  have taken := takeNumber?_padded fits ends
  obtain ⟨c, behind, digits⟩ := List.exists_cons_of_ne_nil (padded_ne_nil places n)
  have first : c ∈ padded places n := by
    rw [digits]
    exact List.mem_cons_self ..
  have digit : c.isDigit = true := isDigit_of_mem_padded first
  rw [takeYear?, skipBlanks_padded]
  rw [digits, List.cons_append] at taken ⊢
  split
  · rename_i same
    cases same
    cases digit
  · rename_i same
    cases same
    cases digit
  · rw [taken, Option.map_some]

theorem takeYear?_yearText (year : Int) (rest : List Char) :
    takeYear? (yearText year ++ '-' :: rest) = some (year, '-' :: rest) := by
  rw [takeYear?, yearText]
  by_cases before : year < 0
  · rw [if_pos before, List.cons_append, skipBlanks_cons (by decide)]
    change (takeNumber? _ _).map _ = _
    rw [takeNumber?_year, Option.map_some]
    exact congrArg (fun y => some (y, '-' :: rest)) (by omega : -(year.natAbs : Int) = year)
  · by_cases far : 9999 < year
    · rw [if_neg before, if_pos far, List.cons_append, skipBlanks_cons (by decide)]
      change (takeNumber? _ _).map _ = _
      rw [takeNumber?_year, Option.map_some]
      exact congrArg (fun y => some (y, '-' :: rest)) (by omega : (year.natAbs : Int) = year)
    · have full := length_padded (by decide : 0 < 4) (show year.natAbs < 10 ^ 4 by omega)
      have read : takeYear? (padded 4 year.natAbs ++ '-' :: rest) =
          some ((year.natAbs : Int), '-' :: rest) := takeYear?_padded (Nat.le_of_eq full) (.inl full)
      rw [takeYear?] at read
      rw [if_neg before, if_neg far, read]
      exact congrArg (fun y => some (y, '-' :: rest)) (by omega : (year.natAbs : Int) = year)

theorem Date.day_le (d : Date) : d.day ≤ 31 := by
  have found := d.day_exists
  unfold daysInMonth at found
  split at found <;> try omega
  split at found <;> omega

theorem takeDate?_toText (d : Date) (rest : List Char) :
    takeDate? (d.toText ++ 'T' :: rest) = some (d, 'T' :: rest) := by
  have month : d.month < 100 := Nat.lt_of_le_of_lt d.month_between.2 (by decide)
  have day : d.day < 100 := Nat.lt_of_le_of_lt d.day_le (by decide)
  have mark : Text.isBlank '-' = false := by decide
  rw [Date.toText, List.append_assoc, List.append_assoc, List.cons_append, List.cons_append]
  simp only [takeDate?, takeYear?_yearText, Option.bind_eq_bind, Option.bind_some,
    field?_padded month, separator?_self mark, field?_padded day, Date.of?_self]
  rfl

/-! ### Clock readings -/

/-- Each of the three lengths of a fraction says as many nanoseconds. -/
theorem fraction?_padded {places n : Nat} (most : places ≤ 9) (fits : n < 10 ^ places)
    (positive : 0 < places) :
    fraction? ('.' :: padded places n) = some (n * 10 ^ (9 - places), []) := by
  have full := length_padded positive fits
  have whole : (padded places n).takeWhile Char.isDigit = padded places n :=
    List.takeWhile_eq_self_iff.2 fun c => isDigit_of_mem_padded
  have some : (padded places n).isEmpty = false := by
    rw [List.isEmpty_eq_false_iff]
    exact padded_ne_nil places n
  rw [fraction?, whole, List.drop_length, some, if_neg Bool.false_ne_true, nanoseconds,
    List.take_of_length_le (by omega), ofDigitChars_padded, full]
  rfl

theorem fraction?_fractionText {n : Nat} (part : n < 1000000000) :
    fraction? (fractionText n) = some (n, []) := by
  unfold fractionText
  by_cases nothing : n = 0
  · rw [if_pos nothing, nothing]
    rfl
  · rw [if_neg nothing]
    by_cases millis : n % 1000000 = 0
    · rw [if_pos millis, fraction?_padded (by decide) (by omega) (by decide)]
      congr 2
      omega
    · rw [if_neg millis]
      by_cases micros : n % 1000 = 0
      · rw [if_pos micros, fraction?_padded (by decide) (by omega) (by decide)]
        congr 2
        omega
      · rw [if_neg micros, fraction?_padded (by decide) (by omega) (by decide), Nat.sub_self,
          Nat.pow_zero, Nat.mul_one]

theorem takeClock?_toText (c : Clock) : takeClock? c.toText = some (c, []) := by
  obtain ⟨hour, minute, second, part⟩ := c.reading
  have mark : Text.isBlank ':' = false := by decide
  rw [Clock.toText, takeClock?]
  simp only [Option.bind_eq_bind, Option.bind_some, List.append_assoc, List.cons_append,
    field?_padded (Nat.lt_trans hour (by decide)), field?_padded (Nat.lt_trans minute (by decide)),
    field?_padded (Nat.lt_of_le_of_lt second (by decide)), separator?_self mark,
    fraction?_fractionText part, Clock.of?_self]
  rfl

/-- A date is read back as it is written. -/
theorem DateTime.ofText?_toText (t : DateTime) : ofText? t.toText = some t := by
  have mark : Text.isBlank 'T' = false := by decide
  rw [ofText?, toText, takeDate?_toText, Option.bind_eq_bind, Option.bind_some]
  dsimp only
  rw [separator?_self mark, Option.bind_eq_bind, Option.bind_some, takeClock?_toText]
  rfl

end Stencil.Calendar
