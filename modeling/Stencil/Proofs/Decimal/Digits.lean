import Stencil.Decimal.Reading

/-! The decimal digits of a natural number, written and read back. -/

namespace Stencil.Numeral

theorem isDigit_of_mem_toDigits {n : Nat} {c : Char} (member : c ∈ Nat.toDigits 10 n) :
    c.isDigit = true :=
  Nat.isDigit_of_mem_toDigits (by decide) (by decide) member

/-- No zero stands before the other digits. -/
theorem head_toDigits_ne_zero {n : Nat} (positive : 0 < n) :
    (Nat.toDigits 10 n).head? ≠ some '0' := by
  induction n using Nat.strongRecOn with
  | ind n ih =>
      by_cases single : n < 10
      · rw [Nat.toDigits_of_lt_base single, List.head?_cons]
        intro same
        exact Nat.ne_of_gt positive (Nat.digitChar_eq_zero.1 (Option.some.inj same))
      · have front := ih (n / 10) (Nat.div_lt_self positive (by decide)) (by omega)
        obtain ⟨c, behind, digits⟩ :=
          List.exists_cons_of_ne_nil (Nat.toDigits_ne_nil (n := n / 10) (b := 10))
        rw [Nat.toDigits_of_base_le (by decide) (Nat.le_of_not_lt single), digits, List.cons_append]
        rwa [digits] at front

/-- The text does not go on with a digit. -/
def EndsDigits (rest : List Char) : Prop := ∀ c ∈ rest.head?, c.isDigit = false

theorem takeWhile_of_endsDigits {rest : List Char} (ends : EndsDigits rest) :
    rest.takeWhile Char.isDigit = [] := by
  cases rest with
  | nil => rfl
  | cons c behind => rw [List.takeWhile_cons, ends c rfl, if_neg Bool.false_ne_true]

theorem takeWhile_append_of_endsDigits {digits rest : List Char}
    (all : ∀ c ∈ digits, c.isDigit = true) (ends : EndsDigits rest) :
    (digits ++ rest).takeWhile Char.isDigit = digits := by
  rw [List.takeWhile_append_of_pos all, takeWhile_of_endsDigits ends, List.append_nil]

end Stencil.Numeral
