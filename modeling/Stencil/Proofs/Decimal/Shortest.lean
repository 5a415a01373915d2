import Stencil.Decimal.Notation
import Stencil.Proofs.Decimal.Rounding

/-! The decimals that floating point numbers are written as are rounded back to the same numbers.
Seventeen digits always reach one. -/

namespace Stencil

open Binary64

namespace Decimal

def toRat (d : Decimal) : ℚ := d.coefficient * 10 ^ d.exponent

theorem div_le_scaled_iff {num den : Nat} (dividing : 0 < den) (candidate : Nat) (exponent : Int) :
    (num : ℚ) / den ≤ candidate * 10 ^ exponent ↔
      num * (splitPower 10 exponent).2 ≤ candidate * (splitPower 10 exponent).1 * den := by
  have divisor := (splitPower_pos (show 0 < 10 by decide) exponent).2
  have power : (10 : ℚ) ^ exponent = _ := (splitPower_eq 10 exponent).symm
  rw [power, ← mul_div_assoc,
    div_le_div_iff₀ (by exact_mod_cast dividing) (by exact_mod_cast divisor)]
  norm_cast

theorem scaled_le_div_iff {num den : Nat} (dividing : 0 < den) (candidate : Nat) (exponent : Int) :
    (candidate * 10 ^ exponent : ℚ) ≤ num / den ↔
      candidate * (splitPower 10 exponent).1 * den ≤ num * (splitPower 10 exponent).2 := by
  have divisor := (splitPower_pos (show 0 < 10 by decide) exponent).2
  have power : (10 : ℚ) ^ exponent = _ := (splitPower_eq 10 exponent).symm
  rw [power, ← mul_div_assoc,
    div_le_div_iff₀ (by exact_mod_cast divisor) (by exact_mod_cast dividing)]
  norm_cast

/-! ### The interval around a number -/

theorem denominator_pos (x : Binary64) : 0 < (Interval.of x).denominator :=
  (splitPower_pos (by decide) _).2

theorem quarter_eq (x : Binary64) :
    ((splitPower 2 (x.scale - 2)).1 : ℚ) / (splitPower 2 (x.scale - 2)).2 = x.step / 4 := by
  rw [splitPower_eq, step, zpow_sub₀ (by norm_num)]
  norm_num

section

variable {x : Binary64} (positive : x.isNegative = false)

include positive

theorem value_interval : ((Interval.of x).value : ℚ) / (Interval.of x).denominator = x.toRat := by
  simp only [Interval.of]
  push_cast
  rw [mul_div_assoc, quarter_eq, toRat_of_positive positive]
  ring

theorem high_interval :
    ((Interval.of x).high : ℚ) / (Interval.of x).denominator = x.toRat + x.step / 2 := by
  simp only [Interval.of]
  push_cast
  rw [mul_div_assoc, quarter_eq, toRat_of_positive positive]
  ring

variable (nonzero : 0 < x.significand)

include nonzero

theorem low_interval :
    ((Interval.of x).low : ℚ) / (Interval.of x).denominator = x.toRat - x.stepBelow / 2 := by
  simp only [Interval.of, Bool.and_eq_true, decide_eq_true_eq]
  rw [toRat_of_positive positive, stepBelow]
  split <;>
  · rw [Nat.cast_mul, Nat.cast_sub (by omega), mul_div_assoc, quarter_eq]
    push_cast
    ring

/-- The interval holds the decimals that are rounded to the number. -/
theorem holds_iff (candidate : Nat) (exponent : Int) :
    (Interval.of x).holds candidate exponent = true ↔ x.Within (candidate * 10 ^ exponent) := by
  have dividing := denominator_pos x
  have low := low_interval positive nonzero
  have high := high_interval positive
  have even : (Interval.of x).closed = true ↔ x.significand % 2 = 0 := decide_eq_true_iff
  rw [Interval.holds]
  dsimp only
  split
  · rename_i closed
    rw [Bool.and_eq_true, decide_eq_true_iff, decide_eq_true_iff, ← div_le_scaled_iff dividing,
      ← scaled_le_div_iff dividing, low, high]
    exact ⟨fun ⟨above, below⟩ => ⟨above, below, .inl (even.1 closed)⟩,
      fun within => ⟨within.low, within.high⟩⟩
  · rename_i opened
    rw [Bool.and_eq_true, decide_eq_true_iff, decide_eq_true_iff, ← Nat.not_le, ← Nat.not_le,
      ← div_le_scaled_iff dividing, ← scaled_le_div_iff dividing, low, high, not_le, not_le]
    exact ⟨fun ⟨above, below⟩ => ⟨above.le, below.le, .inr ⟨above, below⟩⟩,
      fun within => within.ends.resolve_left (mt even.2 opened)⟩

end

/-! ### Grids -/

theorem holds_of_onGrid? {range : Interval} {tie : Tie} {exponent : Int} {candidate : Nat}
    (found : range.onGrid? tie exponent = some candidate) :
    range.holds candidate exponent = true := by
  unfold Interval.onGrid? at found
  dsimp only at found
  split at found
  · cases found
  · cases found
    assumption
  · cases found
    assumption
  · split_ifs at found <;> cases tie <;> cases found <;> assumption

/-- Where the grid misses the interval, it misses it with the neighbours on both sides. -/
theorem neighbours_of_onGrid? {range : Interval} {tie : Tie} {exponent : Int}
    (dividing : 0 < range.denominator) (missed : range.onGrid? tie exponent = none) :
    ∃ under : Nat, (under * 10 ^ exponent : ℚ) ≤ range.value / range.denominator ∧
      (range.value : ℚ) / range.denominator < (under + 1 : Nat) * 10 ^ exponent ∧
      range.holds under exponent = false ∧ range.holds (under + 1) exponent = false := by
  have factor := (splitPower_pos (show 0 < 10 by decide) exponent).1
  have positive := Nat.mul_pos dividing factor
  refine ⟨range.value * (splitPower 10 exponent).2 /
    (range.denominator * (splitPower 10 exponent).1), ?_, ?_, ?_⟩
  · rw [scaled_le_div_iff dividing, Nat.mul_assoc, Nat.mul_comm (splitPower 10 exponent).1]
    exact Nat.div_mul_le_self ..
  · rw [← not_le, scaled_le_div_iff dividing, not_le, Nat.mul_assoc,
      Nat.mul_comm (splitPower 10 exponent).1]
    exact Nat.lt_mul_of_div_lt (Nat.lt_succ_self _) positive
  · unfold Interval.onGrid? at missed
    dsimp only at missed
    split at missed
    · exact ⟨‹_›, ‹_›⟩
    · cases missed
    · cases missed
    · split_ifs at missed <;> cases tie <;> cases missed

section

variable {x : Binary64} (positive : x.isNegative = false) (nonzero : 0 < x.significand)

include positive nonzero

/-- A grid that is finer than the interval is wide has a point in it. -/
theorem exists_onGrid? (tie : Tie) {exponent : Int}
    (fine : (10 : ℚ) ^ exponent < (x.stepBelow + x.step) / 2) :
    ∃ candidate, (Interval.of x).onGrid? tie exponent = some candidate := by
  rw [← Option.ne_none_iff_exists']
  intro missed
  have room := x.step_pos
  have roomBelow := x.stepBelow_pos
  obtain ⟨under, le, lt, notUnder, notOver⟩ :=
    neighbours_of_onGrid? (denominator_pos x) missed
  rw [value_interval positive] at le lt
  have outside : ∀ {q : ℚ}, ¬x.Within q →
      q ≤ x.toRat - x.stepBelow / 2 ∨ x.toRat + x.step / 2 ≤ q := by
    intro q without
    by_contra inside
    rw [not_or, not_le, not_le] at inside
    exact without ⟨inside.1.le, inside.2.le, .inr inside⟩
  rw [← Bool.not_eq_true, holds_iff positive nonzero] at notUnder notOver
  have low := (outside notUnder).resolve_right (by linarith)
  have high := (outside notOver).resolve_left (by linarith)
  push_cast at high
  linarith

/-- The search stops on a grid no finer than the last one it tries, with a decimal within the
interval if that grid is fine enough. -/
theorem search_spec (tie : Tie) (finer : Nat) (exponent : Int)
    (fine : (10 : ℚ) ^ (exponent - finer) < (x.stepBelow + x.step) / 2) :
    let d := (Interval.of x).search tie finer exponent
    x.Within d.toRat ∧ exponent - finer ≤ d.exponent := by
  induction finer generalizing exponent with
  | zero =>
      rw [Int.natCast_zero, Int.sub_zero] at fine
      obtain ⟨candidate, found⟩ := exists_onGrid? positive nonzero tie fine
      rw [Interval.search, found, Option.getD_some]
      refine ⟨(holds_iff positive nonzero ..).1 (holds_of_onGrid? found), ?_⟩
      simp
  | succ finer ih =>
      rw [Interval.search]
      cases found : (Interval.of x).onGrid? tie exponent with
      | some candidate =>
          refine ⟨(holds_iff positive nonzero ..).1 (holds_of_onGrid? found), ?_⟩
          dsimp only
          omega
      | none =>
          have place : exponent - 1 - finer = exponent - (finer + 1 : Nat) := by omega
          rw [← place] at fine ⊢
          exact ih (exponent - 1) fine

end

/-! ### Zeros at the end -/

theorem trimZeros_spec (steps : Nat) (d : Decimal) :
    (trimZeros steps d).toRat = d.toRat ∧ d.exponent ≤ (trimZeros steps d).exponent := by
  induction steps generalizing d with
  | zero => exact ⟨rfl, le_rfl⟩
  | succ steps ih =>
      rw [trimZeros]
      split
      · rename_i zero
        rw [Bool.and_eq_true, bne_iff_ne, beq_iff_eq] at zero
        obtain ⟨same, further⟩ := ih ⟨d.coefficient / 10, d.exponent + 1⟩
        refine ⟨same.trans ?_, by dsimp only at further; omega⟩
        have tens : (d.coefficient : ℚ) = (d.coefficient / 10 : Nat) * 10 := by
          exact_mod_cast (Nat.div_mul_cancel (Nat.dvd_of_mod_eq_zero zero.2)).symm
        rw [toRat, toRat, tens, zpow_add_one₀ (by norm_num)]
        ring
      · exact ⟨rfl, le_rfl⟩

/-! ### The leading digit -/

theorem pow_length_toDigits {n : Nat} (positive : 0 < n) :
    10 ^ ((Nat.toDigits 10 n).length - 1) ≤ n ∧
      n < 10 ^ ((Nat.toDigits 10 n).length - 1 + 1) := by
  have some := Nat.length_toDigits_pos (b := 10) (n := n)
  constructor
  · by_cases single : (Nat.toDigits 10 n).length = 1
    · rw [single]
      exact positive
    · refine Nat.le_of_not_lt fun small => ?_
      have short := (Nat.length_toDigits_le_iff (by decide) (by omega)).2 small
      omega
  · rw [Nat.sub_add_cancel some]
    exact (Nat.length_toDigits_le_iff (by decide) some).1 le_rfl

theorem isFloorPower_leadingPlace {num den : Nat} (positive : 0 < num) (dividing : 0 < den) :
    IsFloorPower 10 (leadingPlace num den) ((num : ℚ) / den) := by
  have guess := isFloorPower_guess (by decide) (pow_length_toDigits positive).1
    (pow_length_toDigits positive).2 (pow_length_toDigits dividing).1
    (pow_length_toDigits dividing).2
  have lengths : (((Nat.toDigits 10 num).length - 1 : Nat) : Int) -
      ((Nat.toDigits 10 den).length - 1 : Nat) =
        (Nat.toDigits 10 num).length - (Nat.toDigits 10 den).length := by
    have := Nat.length_toDigits_pos (b := 10) (n := num)
    have := Nat.length_toDigits_pos (b := 10) (n := den)
    omega
  rwa [lengths] at guess

/-! ### Seventeen digits -/

section

variable {x : Binary64} (positive : x.isNegative = false)

include positive

/-- The seventeenth digit counts for less than the interval is wide. -/
theorem seventeenth_lt_width {place : Int} (leading : (10 : ℚ) ^ place ≤ x.toRat) :
    (10 : ℚ) ^ (place - 16) < (x.stepBelow + x.step) / 2 := by
  have room := x.step_pos
  rw [toRat_of_positive positive] at leading
  rw [zpow_sub₀ (by norm_num), stepBelow]
  split
  · rename_i halved
    obtain ⟨fraction, field⟩ := halved
    have leadingBit : x.significand = 2 ^ 52 := by
      rw [significand, if_neg (by omega), fraction, Nat.one_shiftLeft, Nat.zero_add]
    rw [leadingBit] at leading
    push_cast at leading
    norm_num at leading ⊢
    linarith
  · have below : (x.significand : ℚ) ≤ 2 ^ 53 := by exact_mod_cast x.significand_lt.le
    have := mul_le_mul_of_nonneg_right below room.le
    norm_num at this leading ⊢
    linarith

/-- The shortest decimal of a number lies within its surroundings, and its last digit is no further
than the seventeenth. -/
theorem shortest_spec (nonzero : 0 < x.significand) (tie : Tie) {place : Int}
    (leading : (10 : ℚ) ^ place ≤ x.toRat) :
    x.Within (shortest tie x).toRat ∧ place - 16 ≤ (shortest tie x).exponent := by
  have notZero : x.isZero = false := by
    rw [significand] at nonzero
    rw [← Bool.not_eq_true, isZero, Bool.and_eq_true, beq_iff_eq, beq_iff_eq]
    rintro ⟨field, fraction⟩
    rw [if_pos field, fraction] at nonzero
    exact Nat.lt_irrefl 0 nonzero
  have valuePos : 0 < (Interval.of x).value :=
    Nat.mul_pos (Nat.mul_pos (by decide) nonzero) (splitPower_pos (by decide) _).1
  have floor := isFloorPower_leadingPlace valuePos (denominator_pos x)
  rw [value_interval positive] at floor
  rw [shortest, notZero, if_neg Bool.false_ne_true]
  dsimp only
  generalize leadingPlace (Interval.of x).value (Interval.of x).denominator = top at floor ⊢
  obtain ⟨within, last⟩ := search_spec positive nonzero tie 16 top
    (seventeenth_lt_width positive floor.1)
  obtain ⟨same, further⟩ := trimZeros_spec 17 ((Interval.of x).search tie 16 top)
  have below : place < top + 1 :=
    (zpow_lt_zpow_iff_right₀ (by norm_num)).1 (leading.trans_lt floor.2)
  rw [same]
  exact ⟨within, by omega⟩

end

end Decimal

/-! ### Whole numbers -/

/-- Zeros behind the digits count as powers of ten. -/
theorem Numeral.toDigits_append_zeros {n : Nat} (positive : 0 < n) (places : Nat) :
    Nat.toDigits 10 n ++ List.replicate places '0' = Nat.toDigits 10 (n * 10 ^ places) := by
  induction places with
  | zero => rw [List.replicate_zero, List.append_nil, Nat.pow_zero, Nat.mul_one]
  | succ places ih =>
      have front : 0 < n * 10 ^ places := Nat.mul_pos positive (Nat.pow_pos (by decide))
      rw [List.replicate_succ', ← List.append_assoc, ih, Nat.pow_succ, ← Nat.mul_assoc,
        Nat.mul_comm _ 10]
      exact Nat.toDigits_append_toDigits (by decide) front (d := 0) (by decide)

/-- A large number is written as a whole number that is rounded back to it. All digits behind the
first seventeen are zero. -/
theorem Notation.prose_write_of_large {x : Binary64} (finite : x.isFinite = true) {zeros : Nat}
    (large : (10 : ℚ) ^ (16 + zeros) ≤ x.toRat) :
    ∃ m : Nat, prose.write x = Nat.toDigits 10 m ∧ 10 ^ zeros ∣ m ∧ x.IsNearest m := by
  have above : 0 < x.toRat := lt_of_lt_of_le (by positivity) large
  obtain ⟨positive, nonzero⟩ := positive_of_toRat_pos above
  have leading : (10 : ℚ) ^ ((16 + zeros : Nat) : Int) ≤ x.toRat := by exact_mod_cast large
  obtain ⟨within, last⟩ := Decimal.shortest_spec positive nonzero .up leading
  have written := prose_write_of_whole finite positive (by omega)
  generalize Decimal.shortest .up x = d at *
  obtain ⟨e, exponent⟩ := Int.eq_ofNat_of_zero_le (show 0 ≤ d.exponent by omega)
  have value : d.toRat = (d.coefficient * 10 ^ e : Nat) := by
    rw [Decimal.toRat, exponent]
    push_cast
    rw [zpow_natCast]
  have some : 0 < d.coefficient := by
    refine Nat.pos_of_ne_zero fun zero => ?_
    rw [value, zero, Nat.zero_mul, Nat.cast_zero] at within
    exact lt_irrefl 0 (within.pos above)
  rw [exponent, Int.toNat_natCast, Numeral.toDigits_append_zeros some] at written
  rw [value] at within
  refine ⟨d.coefficient * 10 ^ e, written, ?_, isNearest_of_within finite positive within⟩
  exact (Nat.pow_dvd_pow 10 (by omega)).mul_left _

end Stencil
