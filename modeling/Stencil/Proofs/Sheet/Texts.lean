import Stencil.Proofs.Sheet.Survey

/-! The texts of a sheet, listed in the order in which a walk comes to them. The survey of the sheet
is the survey of these. -/

namespace Stencil

/-- A text in a cell of a sheet. -/
structure CellText where
  row : Nat
  column : Nat
  text : String

namespace CellText

/-- A walk comes to the first of two cells before it comes to the second. -/
def Before (first second : CellText) : Prop :=
  first.row < second.row ∨ first.row = second.row ∧ first.column < second.column

instance : Std.Irrefl Before where
  irrefl _ before := by
    unfold Before at before
    omega

instance : Std.Antisymm Before where
  antisymm _ _ before after := by
    unfold Before at before after
    omega

end CellText

namespace Sheet

def textsIn (s : Sheet) (row column : Nat) : List CellText :=
  ((s.text? row column).map (CellText.mk row column)).toList

/-- All texts of a sheet, row by row. -/
def texts (s : Sheet) : List CellText :=
  (List.range' 0 s.height).flatMap fun row => (s.columns row).flatMap (s.textsIn row)

variable {s : Sheet} {row column : Nat} {place : CellText}

theorem mem_textsIn :
    place ∈ s.textsIn row column ↔
      place.row = row ∧ place.column = column ∧ s.text? row column = some place.text := by
  cases place with
  | mk r c text =>
      rw [textsIn, Option.mem_toList, Option.map_eq_some_iff]
      constructor
      · rintro ⟨text, held, same⟩
        cases same
        exact ⟨rfl, rfl, held⟩
      · rintro ⟨rfl, rfl, held⟩
        exact ⟨text, held, rfl⟩

theorem mem_texts : place ∈ s.texts ↔ s.text? place.row place.column = some place.text := by
  simp only [texts, List.mem_flatMap, mem_textsIn]
  constructor
  · rintro ⟨row, -, column, -, rfl, rfl, held⟩
    exact held
  · intro held
    obtain ⟨cell, present, -⟩ := (text?_eq_some_iff ..).1 held
    have high := lt_height (hasRow_of_cell? present)
    refine ⟨place.row, ?_, place.column, mem_columns present, rfl, rfl, held⟩
    rw [List.mem_range'_1]
    omega

theorem texts_pairwise (s : Sheet) : s.texts.Pairwise CellText.Before := by
  rw [texts, List.pairwise_flatMap]
  constructor
  · intro row _
    rw [List.pairwise_flatMap]
    constructor
    · intro column _
      unfold textsIn
      cases s.text? row column <;> simp
    · apply (columns_ascending s row).imp
      intro first second less a here b there
      obtain ⟨rowA, columnA, -⟩ := mem_textsIn.1 here
      obtain ⟨rowB, columnB, -⟩ := mem_textsIn.1 there
      exact .inr ⟨by omega, by omega⟩
  · have ascending : (List.range' 0 s.height).Pairwise (· < ·) := List.pairwise_lt_range'
    apply ascending.imp
    intro first second less a here b there
    obtain ⟨_, -, inA⟩ := List.mem_flatMap.1 here
    obtain ⟨_, -, inB⟩ := List.mem_flatMap.1 there
    have rowA := (mem_textsIn.1 inA).1
    have rowB := (mem_textsIn.1 inB).1
    exact .inl (by omega)

/-- A list of texts in the order of a walk is known by what is in it. -/
theorem eq_filter_texts {listed : List CellText} (wanted : String → Bool)
    (ordered : listed.Pairwise CellText.Before)
    (same : ∀ place, place ∈ listed ↔
      s.text? place.row place.column = some place.text ∧ wanted place.text = true) :
    listed = s.texts.filter fun place => wanted place.text := by
  apply ordered.eq_of_mem_iff (s.texts_pairwise.filter _)
  intro place
  rw [same, List.mem_filter, mem_texts]

theorem placeholders_eq_texts (s : Sheet) :
    s.placeholders = s.texts.flatMap fun place =>
      placeholdersIn place.text (.cell s.name place.row place.column) := by
  rw [placeholders_eq_usesFrom fun r _ => Nat.zero_le r, usesFrom, texts, List.flatMap_assoc,
    Nat.sub_zero]
  congr 1
  funext row
  rw [usesIn, List.flatMap_assoc]
  congr 1
  funext column
  unfold usesAt textsIn
  cases s.text? row column with
  | none => rfl
  | some text => exact (List.flatMap_singleton ..).symm

end Sheet

end Stencil
