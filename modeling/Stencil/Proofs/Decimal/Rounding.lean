import Mathlib
import Stencil.Binary64

/-! Rounding to floating point numbers: how far apart they stand, which numbers are rounded to one of
them, and that a ratio becomes the nearest one. -/

namespace Stencil.Binary64

/-! ### The numbers that patterns stand for -/

theorem fractionField_lt (x : Binary64) : x.fractionField < 2 ^ 52 := Nat.mod_lt _ (by decide)

theorem significand_lt (x : Binary64) : x.significand < 2 ^ 53 := by
  have fraction := x.fractionField_lt
  rw [significand, Nat.one_shiftLeft]
  split <;> omega

theorem scale_of_normal {x : Binary64} (normal : -1074 < x.scale) :
    1 < x.exponentField ∧ x.significand = x.fractionField + 2 ^ 52 := by
  unfold scale at normal
  split at normal
  · omega
  · rename_i field
    rw [significand, if_neg field, Nat.one_shiftLeft]
    exact ⟨by omega, rfl⟩

theorem neg_1074_le_scale (x : Binary64) : -1074 ≤ x.scale := by
  unfold scale
  split <;> omega

/-- What one step of the significand counts for. -/
def step (x : Binary64) : ℚ := 2 ^ x.scale

/-- The distance to the next smaller magnitude, half a step below a power of two. -/
def stepBelow (x : Binary64) : ℚ :=
  if x.fractionField = 0 ∧ 1 < x.exponentField then x.step / 2 else x.step

theorem step_pos (x : Binary64) : 0 < x.step := zpow_pos (by norm_num) _

theorem stepBelow_le (x : Binary64) : x.stepBelow ≤ x.step := by
  have positive := x.step_pos
  unfold stepBelow
  split <;> linarith

theorem stepBelow_pos (x : Binary64) : 0 < x.stepBelow := by
  have positive := x.step_pos
  unfold stepBelow
  split <;> linarith

/-- The number that a finite pattern stands for. -/
def toRat (x : Binary64) : ℚ := (if x.isNegative then -1 else 1) * (x.significand * x.step)

theorem toRat_of_positive {x : Binary64} (positive : x.isNegative = false) :
    x.toRat = x.significand * x.step := by
  rw [toRat, positive, if_neg Bool.false_ne_true, one_mul]

theorem toRat_le (x : Binary64) : x.toRat ≤ (2 ^ 53 - 1) * x.step := by
  have positive := x.step_pos
  have bound : (x.significand : ℚ) ≤ 2 ^ 53 - 1 := by
    have whole : (x.significand : ℚ) + 1 ≤ 2 ^ 53 := by exact_mod_cast x.significand_lt
    linarith
  have below : x.significand * x.step ≤ (2 ^ 53 - 1) * x.step :=
    mul_le_mul_of_nonneg_right bound positive.le
  have above : 0 ≤ x.significand * x.step := mul_nonneg (Nat.cast_nonneg _) positive.le
  unfold toRat
  split <;> linarith

/-- Numbers with larger steps lie on the grid of the smaller ones. -/
theorem exists_toRat_eq_mul {x y : Binary64} (coarser : x.scale ≤ y.scale) :
    ∃ n : ℤ, y.toRat = n * x.step := by
  refine ⟨(if y.isNegative then -1 else 1) * (y.significand * 2 ^ (y.scale - x.scale).toNat), ?_⟩
  have steps : y.step = 2 ^ (y.scale - x.scale).toNat * x.step := by
    rw [step, step, ← zpow_natCast, Int.toNat_of_nonneg (by omega), ← zpow_add₀ (by norm_num),
      Int.sub_add_cancel]
  rw [toRat, steps]
  push_cast
  ring

/-- A number with smaller steps stays below the powers of two that the larger steps begin with. -/
theorem toRat_le_of_scale_lt {x y : Binary64} (finer : y.scale < x.scale) :
    y.toRat ≤ (2 ^ 52 - 1 / 2) * x.step := by
  have half : y.step ≤ x.step / 2 := by
    rw [step, step, div_eq_mul_inv, ← zpow_sub_one₀ (by norm_num)]
    exact zpow_le_zpow_right₀ (by norm_num) (by omega)
  have bound := y.toRat_le
  linarith

section

variable {x y : Binary64} (positive : x.isNegative = false)

include positive

theorem add_step_le (above : x.toRat < y.toRat) : x.toRat + x.step ≤ y.toRat := by
  have room := x.step_pos
  have value := toRat_of_positive positive
  -- `y` lies on the grid of `x`, or its steps are too small for it to be above `x` at all.
  by_cases coarser : x.scale ≤ y.scale
  · obtain ⟨n, multiple⟩ := exists_toRat_eq_mul coarser
    rw [value, multiple] at above ⊢
    have more : (x.significand : ℤ) < n := by exact_mod_cast lt_of_mul_lt_mul_right above room.le
    have next : (x.significand : ℚ) + 1 ≤ n := by exact_mod_cast more
    calc x.significand * x.step + x.step = (x.significand + 1) * x.step := by ring
      _ ≤ n * x.step := mul_le_mul_of_nonneg_right next room.le
  · have bound := toRat_le_of_scale_lt (Int.lt_of_not_ge coarser)
    obtain ⟨-, leading⟩ := scale_of_normal (x := x) (by have := y.neg_1074_le_scale; omega)
    have large : (2 ^ 52 : ℚ) ≤ x.significand := by
      rw [leading]
      push_cast
      linarith [(Nat.cast_nonneg x.fractionField : (0 : ℚ) ≤ _)]
    have := mul_le_mul_of_nonneg_right large room.le
    linarith

theorem le_sub_stepBelow (below : y.toRat < x.toRat) : y.toRat ≤ x.toRat - x.stepBelow := by
  have room := x.step_pos
  have value := toRat_of_positive positive
  by_cases coarser : x.scale ≤ y.scale
  · obtain ⟨n, multiple⟩ := exists_toRat_eq_mul coarser
    have small := x.stepBelow_le
    rw [value, multiple] at below ⊢
    have less : n < (x.significand : ℤ) := by exact_mod_cast lt_of_mul_lt_mul_right below room.le
    have next : (n : ℚ) + 1 ≤ x.significand := by exact_mod_cast less
    have := mul_le_mul_of_nonneg_right next room.le
    linarith
  · have bound := toRat_le_of_scale_lt (Int.lt_of_not_ge coarser)
    obtain ⟨field, leading⟩ := scale_of_normal (x := x) (by have := y.neg_1074_le_scale; omega)
    rw [value, leading, stepBelow]
    push_cast
    by_cases power : x.fractionField = 0
    · rw [if_pos ⟨power, field⟩, power]
      push_cast
      linarith
    · rw [if_neg fun both => power both.1]
      have one : (1 : ℚ) ≤ x.fractionField := by exact_mod_cast Nat.one_le_iff_ne_zero.2 power
      have := mul_le_mul_of_nonneg_right one room.le
      linarith

end

/-! ### Nearest numbers -/

/-- No finite number is nearer. Where another one is as near, the significand is even. -/
structure IsNearest (x : Binary64) (q : ℚ) : Prop where
  finite : x.isFinite = true
  nearest : ∀ y : Binary64, y.isFinite = true → |x.toRat - q| ≤ |y.toRat - q|
  even : ∀ y : Binary64, y.isFinite = true → |x.toRat - q| = |y.toRat - q| →
    y.toRat = x.toRat ∨ x.significand % 2 = 0

/-- Rounding does not go past a number. -/
theorem IsNearest.le {x y : Binary64} {q : ℚ} (nearest : x.IsNearest q) (finite : y.isFinite = true)
    (below : y.toRat ≤ q) : y.toRat ≤ x.toRat := by
  have apart := nearest.nearest y finite
  rw [abs_of_nonpos (sub_nonpos.2 below)] at apart
  have := (abs_le.1 apart).1
  linarith

/-- Half a step up and down is rounded to a number, with the ends where the significand is even. -/
structure Within (x : Binary64) (q : ℚ) : Prop where
  low : x.toRat - x.stepBelow / 2 ≤ q
  high : q ≤ x.toRat + x.step / 2
  ends : x.significand % 2 = 0 ∨ x.toRat - x.stepBelow / 2 < q ∧ q < x.toRat + x.step / 2

theorem Within.abs_sub_le {x y : Binary64} {q : ℚ} (positive : x.isNegative = false)
    (within : x.Within q) : |x.toRat - q| ≤ |y.toRat - q| := by
  have room := x.step_pos
  have roomBelow := x.stepBelow_pos
  rcases lt_trichotomy y.toRat x.toRat with below | same | above
  · have apart := le_sub_stepBelow positive below
    calc |x.toRat - q| ≤ q - y.toRat :=
          abs_le.2 ⟨by linarith [within.high], by linarith [within.low]⟩
      _ ≤ |y.toRat - q| := by
          rw [abs_sub_comm]
          exact le_abs_self _
  · rw [same]
  · have apart := add_step_le positive above
    calc |x.toRat - q| ≤ y.toRat - q :=
          abs_le.2 ⟨by linarith [within.high], by linarith [within.low]⟩
      _ ≤ |y.toRat - q| := le_abs_self _

theorem abs_sub_lt_of_strict {x y : Binary64} {q : ℚ} (positive : x.isNegative = false)
    (low : x.toRat - x.stepBelow / 2 < q) (high : q < x.toRat + x.step / 2)
    (other : y.toRat ≠ x.toRat) : |x.toRat - q| < |y.toRat - q| := by
  have room := x.step_pos
  have roomBelow := x.stepBelow_pos
  rcases lt_or_gt_of_ne other with below | above
  · have apart := le_sub_stepBelow positive below
    calc |x.toRat - q| < q - y.toRat := abs_lt.2 ⟨by linarith, by linarith⟩
      _ ≤ |y.toRat - q| := by
          rw [abs_sub_comm]
          exact le_abs_self _
  · have apart := add_step_le positive above
    calc |x.toRat - q| < y.toRat - q := abs_lt.2 ⟨by linarith, by linarith⟩
      _ ≤ |y.toRat - q| := le_abs_self _

theorem isNearest_of_within {x : Binary64} {q : ℚ} (finite : x.isFinite = true)
    (positive : x.isNegative = false) (within : x.Within q) : x.IsNearest q := by
  refine ⟨finite, fun y _ => within.abs_sub_le positive, fun y _ tied => ?_⟩
  rcases within.ends with even | ⟨low, high⟩
  · exact .inr even
  · by_contra neither
    exact (abs_sub_lt_of_strict positive low high fun same => neither (.inl same)).ne tied

theorem positive_of_toRat_pos {x : Binary64} (above : 0 < x.toRat) :
    x.isNegative = false ∧ 0 < x.significand := by
  have room := x.step_pos
  cases sign : x.isNegative with
  | true =>
      have magnitude : 0 ≤ x.significand * x.step := mul_nonneg (Nat.cast_nonneg _) room.le
      rw [toRat, if_pos sign] at above
      linarith
  | false =>
      refine ⟨rfl, Nat.pos_of_ne_zero fun zero => ?_⟩
      rw [toRat_of_positive sign, zero, Nat.cast_zero, zero_mul] at above
      exact lt_irrefl 0 above

theorem Within.pos {x : Binary64} {q : ℚ} (within : x.Within q) (above : 0 < x.toRat) : 0 < q := by
  obtain ⟨positive, nonzero⟩ := positive_of_toRat_pos above
  have room := x.step_pos
  have one : (1 : ℚ) ≤ x.significand := by exact_mod_cast nonzero
  have := mul_le_mul_of_nonneg_right one room.le
  have value := toRat_of_positive positive
  linarith [within.low, x.stepBelow_le]

/-! ### Powers -/

theorem splitPower_pos {base : Nat} (positive : 0 < base) (exponent : Int) :
    0 < (splitPower base exponent).1 ∧ 0 < (splitPower base exponent).2 := by
  unfold splitPower
  split <;> exact ⟨by simp [Nat.pow_pos positive], by simp [Nat.pow_pos positive]⟩

theorem splitPower_eq (base : Nat) (exponent : Int) :
    ((splitPower base exponent).1 : ℚ) / (splitPower base exponent).2 = (base : ℚ) ^ exponent := by
  unfold splitPower
  split
  · rename_i sign
    obtain ⟨n, rfl⟩ := Int.eq_ofNat_of_zero_le sign
    simp
  · rename_i sign
    obtain ⟨n, power⟩ := Int.eq_ofNat_of_zero_le (show 0 ≤ -exponent by omega)
    rw [show exponent = -(n : Int) by omega]
    simp

/-- The greatest power of the base that is not above. -/
def IsFloorPower (base : Nat) (exponent : Int) (q : ℚ) : Prop :=
  (base : ℚ) ^ exponent ≤ q ∧ q < (base : ℚ) ^ (exponent + 1)

/-- Comparing a ratio with a power that is split. -/
theorem mul_lt_mul_splitPower_iff (num : Nat) {base den : Nat} (positive : 0 < base) (dividing : 0 < den)
    (exponent : Int) :
    num * (splitPower base exponent).2 < den * (splitPower base exponent).1 ↔
      (num : ℚ) / den < (base : ℚ) ^ exponent := by
  have divisor := (splitPower_pos positive exponent).2
  rw [Nat.mul_comm den, ← splitPower_eq base, div_lt_div_iff₀ (by exact_mod_cast dividing)
    (by exact_mod_cast divisor)]
  norm_cast

/-- From the powers below numerator and denominator that of the ratio is known up to one. -/
theorem isFloorPower_guess {base num den p q : Nat} (large : 1 < base) (numLow : base ^ p ≤ num)
    (numHigh : num < base ^ (p + 1)) (denLow : base ^ q ≤ den) (denHigh : den < base ^ (q + 1)) :
    let guess : Int := p - q
    IsFloorPower base
      (if num * (splitPower base guess).2 < den * (splitPower base guess).1 then guess - 1
        else guess) ((num : ℚ) / den) := by
  intro guess
  have baseNe : (base : ℚ) ≠ 0 := by exact_mod_cast (Nat.zero_lt_of_lt large).ne'
  have basePos : (0 : ℚ) < base := by exact_mod_cast Nat.zero_lt_of_lt large
  have dividing : 0 < den := Nat.lt_of_lt_of_le (Nat.pow_pos (Nat.zero_lt_of_lt large)) denLow
  have denPos : (0 : ℚ) < den := by exact_mod_cast dividing
  have numLow : (base : ℚ) ^ (p : Int) ≤ num := by exact_mod_cast numLow
  have numHigh : (num : ℚ) < (base : ℚ) ^ ((p : Int) + 1) := by exact_mod_cast numHigh
  have denLow : (base : ℚ) ^ (q : Int) ≤ den := by exact_mod_cast denLow
  have denHigh : (den : ℚ) < (base : ℚ) ^ ((q : Int) + 1) := by exact_mod_cast denHigh
  have compared := mul_lt_mul_splitPower_iff num (Nat.zero_lt_of_lt large) dividing guess
  split
  · have below := compared.1 ‹_›
    refine ⟨?_, by rwa [Int.sub_add_cancel]⟩
    rw [le_div_iff₀ denPos]
    calc (base : ℚ) ^ (guess - 1) * den ≤ (base : ℚ) ^ (guess - 1) * (base : ℚ) ^ ((q : Int) + 1) :=
          mul_le_mul_of_nonneg_left denHigh.le (zpow_pos basePos _).le
      _ = (base : ℚ) ^ (p : Int) := by
          rw [← zpow_add₀ baseNe]
          congr 1
          omega
      _ ≤ num := numLow
  · have above := mt compared.2 ‹_›
    refine ⟨not_lt.1 above, ?_⟩
    rw [div_lt_iff₀ denPos]
    calc (num : ℚ) < (base : ℚ) ^ ((p : Int) + 1) := numHigh
      _ = (base : ℚ) ^ (guess + 1) * (base : ℚ) ^ (q : Int) := by
          rw [← zpow_add₀ baseNe]
          congr 1
          omega
      _ ≤ (base : ℚ) ^ (guess + 1) * den :=
          mul_le_mul_of_nonneg_left denLow (zpow_pos basePos _).le

theorem isFloorPower_floorLog2 {num den : Nat} (positive : 0 < num) (dividing : 0 < den) :
    IsFloorPower 2 (floorLog2 num den) ((num : ℚ) / den) :=
  isFloorPower_guess (by decide) (Nat.log2_self_le positive.ne') Nat.lt_log2_self
    (Nat.log2_self_le dividing.ne') Nat.lt_log2_self

/-! ### Rounding -/

/-- A ratio is at most one half away from the whole number it is rounded to, and only from an even
one as far as that. -/
theorem roundRatio_spec (num : Nat) {den : Nat} (dividing : 0 < den) :
    2 * num ≤ (2 * roundRatio num den + 1) * den ∧
      2 * roundRatio num den * den ≤ 2 * num + den ∧
      (roundRatio num den % 2 = 0 ∨ 2 * num < (2 * roundRatio num den + 1) * den ∧
        2 * roundRatio num den * den < 2 * num + den) := by
  have parts := Nat.div_add_mod num den
  have rest := Nat.mod_lt num dividing
  unfold roundRatio
  generalize num / den = whole at parts ⊢
  generalize num % den = left at parts rest ⊢
  subst parts
  have here : 2 * whole * den = 2 * (den * whole) := by ring
  have above : (2 * whole + 1) * den = 2 * (den * whole) + den := by ring
  have next : 2 * (whole + 1) * den = 2 * (den * whole) + 2 * den := by ring
  have aboveNext : (2 * (whole + 1) + 1) * den = 2 * (den * whole) + 3 * den := by ring
  simp only [Bool.or_eq_true, decide_eq_true_eq, Bool.and_eq_true, beq_iff_eq]
  split
  · rw [next, aboveNext]
    omega
  · rw [here, above]
    omega

/-- A whole number at most one half away, only an even one as far as that. -/
structure RoundsTo (t : ℚ) (r : Nat) : Prop where
  low : r - 1 / 2 ≤ t
  high : t ≤ r + 1 / 2
  ends : r % 2 = 0 ∨ r - 1 / 2 < t ∧ t < r + 1 / 2

theorem roundsTo_roundRatio (num : Nat) {den : Nat} (dividing : 0 < den) :
    RoundsTo (num / den) (roundRatio num den) := by
  obtain ⟨above, below, ends⟩ := roundRatio_spec num dividing
  generalize roundRatio num den = r at *
  have positive : (0 : ℚ) < den := by exact_mod_cast dividing
  have above : 2 * (num : ℚ) ≤ (2 * r + 1) * den := by exact_mod_cast above
  have below : 2 * (r : ℚ) * den ≤ 2 * num + den := by exact_mod_cast below
  refine ⟨?_, ?_, ends.imp_right fun strict => ?_⟩
  · rw [le_div_iff₀ positive]
    linarith
  · rw [div_le_iff₀ positive]
    linarith
  · have above : 2 * (num : ℚ) < (2 * r + 1) * den := by exact_mod_cast strict.1
    have below : 2 * (r : ℚ) * den < 2 * num + den := by exact_mod_cast strict.2
    rw [lt_div_iff₀ positive, div_lt_iff₀ positive]
    exact ⟨by linarith, by linarith⟩

theorem RoundsTo.le {t : ℚ} {r n : Nat} (rounds : RoundsTo t r) (below : t < n) : r ≤ n := by
  have near : (r : ℚ) < n + 1 := by linarith [rounds.low]
  exact Nat.le_of_lt_succ (by exact_mod_cast near)

theorem RoundsTo.ge {t : ℚ} {r n : Nat} (rounds : RoundsTo t r) (above : n ≤ t) : n ≤ r := by
  have near : (n : ℚ) < r + 1 := by linarith [rounds.high]
  exact Nat.le_of_lt_succ (by exact_mod_cast near)

/-! ### Significand and exponent -/

section

variable {magnitude : Nat} (finite : magnitude < 2047 <<< 52)

include finite

theorem toNat_bits_ofParts : (ofParts false magnitude).bits.toNat = magnitude := by
  rw [Nat.shiftLeft_eq] at finite
  change magnitude % 2 ^ 64 = magnitude
  omega

theorem isNegative_ofParts : (ofParts false magnitude).isNegative = false := by
  rw [isNegative, toNat_bits_ofParts finite]
  rw [Nat.shiftLeft_eq] at finite
  exact decide_eq_false (by omega)

theorem exponentField_ofParts : (ofParts false magnitude).exponentField = magnitude / 2 ^ 52 := by
  rw [exponentField, toNat_bits_ofParts finite, Nat.shiftRight_eq_div_pow]
  rw [Nat.shiftLeft_eq] at finite
  omega

theorem fractionField_ofParts : (ofParts false magnitude).fractionField = magnitude % 2 ^ 52 := by
  rw [fractionField, toNat_bits_ofParts finite, Nat.one_shiftLeft]

theorem isFinite_ofParts : (ofParts false magnitude).isFinite = true := by
  rw [isFinite, exponentField_ofParts finite]
  rw [Nat.shiftLeft_eq] at finite
  exact bne_iff_ne.2 (by omega)

end

section

variable {e r : Nat} (finite : e <<< 52 + r < 2047 <<< 52)

include finite

/-- A significand put beside its exponent. -/
theorem ofParts_of_lt (leading : 0 < e → 2 ^ 52 ≤ r) (short : r < 2 ^ 53) :
    let x := ofParts false (e <<< 52 + r)
    x.significand = r ∧ x.scale = (e : Int) - 1074 ∧
      (x.fractionField = 0 ∧ 1 < x.exponentField → 0 < e ∧ r = 2 ^ 52) := by
  intro x
  have exponent := exponentField_ofParts finite
  have fraction := fractionField_ofParts finite
  rw [Nat.shiftLeft_eq] at exponent fraction
  simp only [x, significand, scale, exponent, fraction, Nat.shiftLeft_eq]
  split <;> omega

/-- A significand that has become too long goes on into the exponent. -/
theorem ofParts_of_carry (carry : r = 2 ^ 53) :
    let x := ofParts false (e <<< 52 + r)
    x.significand = 2 ^ 52 ∧ x.scale = (e : Int) - 1074 + 1 ∧
      x.fractionField = 0 ∧ 1 < x.exponentField := by
  intro x
  have exponent := exponentField_ofParts finite
  have fraction := fractionField_ofParts finite
  rw [Nat.shiftLeft_eq] at exponent fraction
  simp only [x, significand, scale, exponent, fraction, Nat.shiftLeft_eq]
  split <;> omega

/-- A ratio that is rounded to a significand lies within the surroundings of the number made of
it. -/
theorem within_ofParts {t : ℚ} (rounds : RoundsTo t r) (below : t < 2 ^ 53)
    (leading : 0 < e → 2 ^ 52 ≤ t) :
    (ofParts false (e <<< 52 + r)).Within (t * 2 ^ ((e : Int) - 1074)) := by
  have value := toRat_of_positive (isNegative_ofParts finite)
  have unit : (0 : ℚ) < 2 ^ ((e : Int) - 1074) := zpow_pos (by norm_num) _
  rcases Nat.lt_or_eq_of_le (rounds.le (n := 2 ^ 53) (by exact_mod_cast below)) with short | carry
  · have longEnough : 0 < e → 2 ^ 52 ≤ r := fun normal =>
      rounds.ge (n := 2 ^ 52) (by exact_mod_cast leading normal)
    obtain ⟨significand, scale, power⟩ := ofParts_of_lt finite longEnough short
    rw [significand] at value
    generalize ofParts false (e <<< 52 + r) = x at *
    have steps : x.step = 2 ^ ((e : Int) - 1074) := by rw [step, scale]
    rw [steps] at value
    generalize (2 : ℚ) ^ ((e : Int) - 1074) = u at *
    have upper := mul_le_mul_of_nonneg_right rounds.high unit.le
    have lower := mul_le_mul_of_nonneg_right rounds.low unit.le
    by_cases halved : x.fractionField = 0 ∧ 1 < x.exponentField
    -- Below a power of two there is only a quarter, but the ratio itself is not below it.
    · obtain ⟨normal, whole⟩ := power halved
      have lead := mul_le_mul_of_nonneg_right (leading normal) unit.le
      have half : x.stepBelow = u / 2 := by rw [stepBelow, if_pos halved, steps]
      rw [whole] at value upper
      push_cast at value upper
      refine ⟨?_, ?_, .inl (by rw [significand, whole]; norm_num)⟩
      · rw [half]
        linarith
      · rw [steps]
        linarith
    · have full : x.stepBelow = u := by rw [stepBelow, if_neg halved, steps]
      refine ⟨by rw [full]; linarith, by rw [steps]; linarith, ?_⟩
      rw [full, steps, significand]
      refine rounds.ends.imp_right fun strict => ⟨?_, ?_⟩
      · have := mul_lt_mul_of_pos_right strict.1 unit
        linarith
      · have := mul_lt_mul_of_pos_right strict.2 unit
        linarith
  · obtain ⟨significand, scale, power⟩ := ofParts_of_carry finite carry
    rw [significand] at value
    generalize ofParts false (e <<< 52 + r) = x at *
    have steps : x.step = 2 * 2 ^ ((e : Int) - 1074) := by
      rw [step, scale, zpow_add_one₀ (by norm_num), mul_comm]
    have half : x.stepBelow = 2 ^ ((e : Int) - 1074) := by
      rw [stepBelow, if_pos power, steps]
      ring
    rw [steps] at value
    generalize (2 : ℚ) ^ ((e : Int) - 1074) = u at *
    have upper := mul_le_mul_of_nonneg_right rounds.high unit.le
    have lower := mul_le_mul_of_nonneg_right rounds.low unit.le
    rw [carry] at upper lower
    push_cast at value upper lower
    refine ⟨by rw [half]; linarith, by rw [steps]; linarith, .inl ?_⟩
    rw [significand]
    norm_num

end

/-- Counting a ratio in units of a power of two. -/
theorem div_eq_mul_unit (num : Nat) {den : Nat} (dividing : 0 < den) (exponent : Int) :
    (num : ℚ) / den = ((num * (splitPower 2 exponent).2 : Nat) : ℚ) /
      (den * (splitPower 2 exponent).1 : Nat) * 2 ^ exponent := by
  obtain ⟨factorPos, divisorPos⟩ := splitPower_pos (show 0 < 2 by decide) exponent
  have power := splitPower_eq 2 exponent
  generalize (splitPower 2 exponent).1 = factor at *
  generalize (splitPower 2 exponent).2 = divisor at *
  have dividing : (0 : ℚ) < den := by exact_mod_cast dividing
  have factorPos : (0 : ℚ) < factor := by exact_mod_cast factorPos
  have divisorPos : (0 : ℚ) < divisor := by exact_mod_cast divisorPos
  push_cast at power ⊢
  rw [← power]
  field_simp

/-- In the unit that is chosen for its power of two, a ratio has fifty-three binary places, unless
the unit is the smallest one. -/
theorem IsFloorPower.places {k : Int} {e : Nat} {t : ℚ}
    (floor : IsFloorPower 2 k (t * 2 ^ ((e : Int) - 1074)))
    (unit : max (k - 52) (-1074) = (e : Int) - 1074) : t < 2 ^ 53 ∧ (0 < e → 2 ^ 52 ≤ t) := by
  have unitPos : (0 : ℚ) < 2 ^ ((e : Int) - 1074) := zpow_pos (by norm_num) _
  constructor
  · refine lt_of_mul_lt_mul_right ?_ unitPos.le
    calc t * 2 ^ ((e : Int) - 1074) < 2 ^ (k + 1) := floor.2
      _ ≤ 2 ^ (53 + ((e : Int) - 1074)) := zpow_le_zpow_right₀ (by norm_num) (by omega)
      _ = 2 ^ 53 * 2 ^ ((e : Int) - 1074) := zpow_add₀ (by norm_num) ..
  · intro normal
    refine le_of_mul_le_mul_right ?_ unitPos
    calc (2 : ℚ) ^ 52 * 2 ^ ((e : Int) - 1074) = 2 ^ (52 + ((e : Int) - 1074)) :=
          (zpow_add₀ (by norm_num) ..).symm
      _ ≤ 2 ^ k := zpow_le_zpow_right₀ (by norm_num) (by omega)
      _ ≤ t * 2 ^ ((e : Int) - 1074) := floor.1

/-- A positive ratio becomes the nearest number. -/
theorem isNearest_ofRatio {num den : Nat} (positive : 0 < num) (dividing : 0 < den)
    (bounded : (num : ℚ) / den < 2 ^ 1023) : (ofRatio false num den).IsNearest (num / den) := by
  have floor := isFloorPower_floorLog2 positive dividing
  rw [ofRatio, if_neg positive.ne']
  generalize floorLog2 num den = k at floor ⊢
  have small : k < 1023 := by
    have powers : (2 : ℚ) ^ k < 2 ^ (1023 : Int) := floor.1.trans_lt bounded
    exact (zpow_lt_zpow_iff_right₀ (by norm_num)).1 powers
  obtain ⟨e, unit⟩ : ∃ e : Nat, max (k - 52) (-1074) = (e : Int) - 1074 :=
    ⟨(max (k - 52) (-1074) + 1074).toNat, by omega⟩
  have place : ((e : Int) - 1074 + 1074).toNat = e := by omega
  simp only [unit, place]
  have factorPos := (splitPower_pos (show 0 < 2 by decide) ((e : Int) - 1074)).1
  have rounds := roundsTo_roundRatio (num * (splitPower 2 ((e : Int) - 1074)).2)
    (Nat.mul_pos dividing factorPos)
  rw [div_eq_mul_unit num dividing ((e : Int) - 1074)] at floor ⊢
  generalize roundRatio _ _ = r at *
  generalize ((num * (splitPower 2 ((e : Int) - 1074)).2 : Nat) : ℚ) / (_ : ℚ) = t at *
  obtain ⟨below, leading⟩ := floor.places unit
  have long : r ≤ 2 ^ 53 := rounds.le (by exact_mod_cast below)
  have finite : e <<< 52 + r < 2047 <<< 52 := by
    simp only [Nat.shiftLeft_eq]
    omega
  rw [if_neg (Nat.not_le.2 finite)]
  exact isNearest_of_within (isFinite_ofParts finite) (isNegative_ofParts finite)
    (within_ofParts finite rounds below leading)

theorem isNearest_ofNat {n : Nat} (positive : 0 < n) (bounded : n < 2 ^ 64) :
    (ofNat n).IsNearest n := by
  have small : (n : ℚ) / (1 : Nat) < 2 ^ 1023 := by
    have word : (n : ℚ) < 2 ^ 64 := by exact_mod_cast bounded
    rw [Nat.cast_one, div_one]
    exact word.trans_le (pow_le_pow_right₀ (by norm_num) (by decide))
  have nearest := isNearest_ofRatio positive Nat.one_pos small
  rwa [Nat.cast_one, div_one] at nearest

end Stencil.Binary64
