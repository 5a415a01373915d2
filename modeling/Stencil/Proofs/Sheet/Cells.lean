import Stencil.Proofs.Sheet.Sparse
import Stencil.Sheet.Basic

/-! What the operations on a sheet do to its cells, its rows and its merged regions, each seen at
one place. -/

namespace Stencil

namespace Region

/-- A moved place is in the moved region if it was in the region before. -/
theorem contains_shift (region : Region) (start count row column : Nat) :
    (region.shift start count).contains (Sparse.moved start count row) column =
      region.contains row column := by
  rw [Bool.eq_iff_iff]
  unfold shift Sparse.moved
  split_ifs <;> simp only [contains, Bool.and_eq_true, decide_eq_true_eq] <;> omega

/-- A region reaches into inserted rows if it begins above them and holds the row that they take
the place of. -/
theorem contains_gap_iff {region : Region} {start count row column : Nat}
    (low : start ≤ row) (high : row < start + count) :
    (region.shift start count).contains row column = true ↔
      region.firstRow < start ∧ region.contains start column = true := by
  unfold shift
  split_ifs <;> simp only [contains, Bool.and_eq_true, decide_eq_true_eq] <;> omega

/-- A region reaches into inserted rows only if it holds the row before them. -/
theorem contains_of_contains_gap {region : Region} {start count row column : Nat}
    (low : start ≤ row) (high : row < start + count)
    (inside : (region.shift start count).contains row column = true) :
    0 < start ∧ region.contains (start - 1) column = true := by
  obtain ⟨above, holds⟩ := (contains_gap_iff low high).1 inside
  simp only [contains, Bool.and_eq_true, decide_eq_true_eq] at holds ⊢
  omega

theorem shift_shift (region : Region) (start first second : Nat) :
    (region.shift start first).shift (start + first) second =
      region.shift start (first + second) := by
  unfold shift
  split_ifs <;> simp_all <;> omega

theorem shift_le (region : Region) (start count : Nat) :
    (region.shift start count).firstRow ≤ region.firstRow + count ∧
      (region.shift start count).lastRow ≤ region.lastRow + count := by
  unfold shift
  split_ifs <;> simp

theorem columns_shift (region : Region) (start count : Nat) :
    (region.shift start count).firstColumn = region.firstColumn ∧
      (region.shift start count).lastColumn = region.lastColumn := by
  unfold shift
  split_ifs <;> exact ⟨rfl, rfl⟩

theorem shift_zero (region : Region) (start : Nat) : region.shift start 0 = region := by
  unfold shift
  split_ifs <;> simp

end Region

theorem CellValue.eq_of_text? {value : CellValue} {text : String}
    (held : value.text? = some text) : value = .text text := by
  cases value with
  | text inner =>
      cases held
      rfl
  | _ => cases held

namespace Sheet

theorem row_updateCell (s : Sheet) (row column r : Nat) (f : Cell → Cell) :
    (s.updateCell row column f).rows.get? r =
      if r = row then some (((s.rows.get? row).getD .empty).update column {} f)
      else s.rows.get? r :=
  Sparse.get?_update ..

theorem row_createRow (s : Sheet) (row r : Nat) :
    (s.createRow row).rows.get? r =
      if r = row then some ((s.rows.get? row).getD .empty) else s.rows.get? r :=
  Sparse.get?_update ..

theorem row_shiftRows (s : Sheet) (start count r : Nat) :
    (s.shiftRows start count).rows.get? r =
      if r < start then s.rows.get? r
      else if r < start + count then none
      else s.rows.get? (r - count) :=
  Sparse.get?_shift ..

theorem cell?_updateCell (s : Sheet) (row column r c : Nat) (f : Cell → Cell) :
    (s.updateCell row column f).cell? r c =
      if r = row ∧ c = column then some (f ((s.cell? row column).getD {}))
      else s.cell? r c := by
  unfold cell?
  rw [row_updateCell]
  by_cases sameRow : r = row
  · subst sameRow
    rw [if_pos rfl, Option.bind_some, Sparse.get?_update]
    by_cases sameColumn : c = column
    · rw [if_pos sameColumn, if_pos ⟨rfl, sameColumn⟩]
      cases s.rows.get? r <;> rfl
    · rw [if_neg sameColumn, if_neg fun both => sameColumn both.2]
      cases s.rows.get? r <;> rfl
  · rw [if_neg sameRow, if_neg fun both => sameRow both.1]

theorem value?_setValue (s : Sheet) (row column r c : Nat) (value : CellValue) :
    (s.setValue row column value).value? r c =
      if r = row ∧ c = column then some value else s.value? r c := by
  unfold value? setValue
  rw [cell?_updateCell]
  split <;> rfl

theorem cell?_setValue_of_ne (s : Sheet) {row column r c : Nat} (value : CellValue)
    (apart : ¬(r = row ∧ c = column)) :
    (s.setValue row column value).cell? r c = s.cell? r c := by
  rw [setValue, cell?_updateCell, if_neg apart]

theorem hasRow_eq_isSome (s : Sheet) (row : Nat) : s.hasRow row = (s.rows.get? row).isSome := rfl

theorem hasRow_of_cell? {s : Sheet} {row column : Nat} {cell : Cell}
    (found : s.cell? row column = some cell) : s.hasRow row = true := by
  obtain ⟨cells, present, -⟩ := Option.bind_eq_some_iff.1 found
  rw [hasRow_eq_isSome, present]
  rfl

theorem cell?_congr {s t : Sheet} {r q : Nat} (same : s.rows.get? r = t.rows.get? q)
    (column : Nat) : s.cell? r column = t.cell? q column := by
  rw [cell?, same, cell?]

theorem text?_congr {s t : Sheet} {r q column : Nat} (same : s.cell? r column = t.cell? q column) :
    s.text? r column = t.text? q column := by
  rw [text?, value?, same, text?, value?]

theorem isMerged_congr {s t : Sheet} (same : s.merged = t.merged) (row column : Nat) :
    s.isMerged row column = t.isMerged row column := by
  rw [isMerged, same, isMerged]

theorem text?_eq_some_iff (s : Sheet) (row column : Nat) (text : String) :
    s.text? row column = some text ↔
      ∃ cell, s.cell? row column = some cell ∧ cell.value = .text text := by
  unfold text? value?
  cases s.cell? row column with
  | none => simp
  | some cell => cases same : cell.value <;> simp [CellValue.text?, same]

theorem isMerged_shiftRows (s : Sheet) (start count row column : Nat) :
    (s.shiftRows start count).isMerged (Sparse.moved start count row) column =
      s.isMerged row column := by
  simp only [isMerged, shiftRows, wrap_endless, List.any_map, Function.comp_def,
    Region.contains_shift]

theorem shiftRows_zero (s : Sheet) (start : Nat) : (s.shiftRows start 0).merged = s.merged := by
  simp only [shiftRows, wrap_endless, Region.shift_zero, List.map_id']

theorem shiftRows_shiftRows (s : Sheet) (start first second : Nat) :
    ((s.shiftRows start first).shiftRows (start + first) second).merged =
      (s.shiftRows start (first + second)).merged := by
  simp only [shiftRows, wrap_endless, List.map_map, Function.comp_def, Region.shift_shift]

theorem hasRow_setValue {s : Sheet} {row : Nat} (present : s.hasRow row = true)
    (column : Nat) (value : CellValue) (r : Nat) :
    (s.setValue row column value).hasRow r = s.hasRow r := by
  rw [hasRow_eq_isSome, setValue, row_updateCell]
  by_cases same : r = row
  · rw [if_pos same, same, present]
    rfl
  · rw [if_neg same, hasRow_eq_isSome]

/-! ### Columns -/

/-- The columns of a row take in every cell that the row has. -/
theorem mem_columns {s : Sheet} {row column : Nat} {cell : Cell}
    (found : s.cell? row column = some cell) : column ∈ s.columns row := by
  obtain ⟨cells, present, inRow⟩ := Option.bind_eq_some_iff.1 found
  have held : cells.contains column = true := by
    rw [Sparse.contains, inRow]
    rfl
  have member : (column, cell) ∈ cells.entries := (Sparse.get?_eq_some_iff ..).1 inRow
  cases entries : cells.entries with
  | nil => rw [entries] at member; cases member
  | cons head rest =>
      obtain ⟨first, atFirst⟩ : ∃ first, cells.firstIndex? = some first :=
        ⟨_, by rw [Sparse.firstIndex?, entries]; rfl⟩
      obtain ⟨last, atLast⟩ : ∃ last, cells.lastIndex? = some last :=
        ⟨_, by rw [Sparse.lastIndex?, entries, List.getLast?_cons]; rfl⟩
      have low := ((Sparse.firstIndex?_eq_some_iff ..).1 atFirst).2 held
      have high := ((Sparse.lastIndex?_eq_some_iff ..).1 atLast).2 held
      simp only [columns, columnBounds, present, atFirst, atLast, Counting.wrap_endless,
        List.mem_range'_1]
      omega

theorem columns_ascending (s : Sheet) (row : Nat) : (s.columns row).Pairwise (· < ·) :=
  List.pairwise_lt_range'

theorem columns_eq_nil {s : Sheet} {row : Nat} (absent : s.rows.get? row = none) :
    s.columns row = [] := by
  rw [columns, columnBounds, absent]
  rfl

/-! ### The first row and the last -/

theorem exists_firstRow {s : Sheet} {row : Nat} (present : s.hasRow row = true) :
    ∃ first, s.firstRow? = some first ∧ first ≤ row := by
  cases first : s.firstRow? with
  | none =>
      obtain ⟨cells, held⟩ := (Sparse.contains_iff_mem ..).1 present
      rw [firstRow?, Sparse.firstIndex?, Option.map_eq_none_iff, List.head?_eq_none_iff] at first
      rw [first] at held
      cases held
  | some start => exact ⟨start, rfl, ((Sparse.firstIndex?_eq_some_iff ..).1 first).2 present⟩

/-- A number that is above the number of every row. -/
def height (s : Sheet) : Nat := s.lastRow?.elim 0 (· + 1)

theorem lt_height {s : Sheet} {row : Nat} (present : s.hasRow row = true) : row < s.height := by
  cases last : s.lastRow? with
  | none =>
      obtain ⟨cells, member⟩ := (Sparse.contains_iff_mem ..).1 present
      rw [lastRow?, Sparse.lastIndex?, Option.map_eq_none_iff, List.getLast?_eq_none_iff] at last
      rw [last] at member
      cases member
  | some top =>
      have bound := ((Sparse.lastIndex?_eq_some_iff ..).1 last).2 present
      simp only [height, last, Option.elim_some]
      omega

theorem absent_of_height_le {s : Sheet} {row : Nat} (low : s.height ≤ row) :
    s.rows.get? row = none := by
  cases present : s.rows.get? row with
  | none => rfl
  | some cells =>
      have there : s.hasRow row = true := by rw [hasRow_eq_isSome, present]; rfl
      exact absurd (lt_height there) (Nat.not_lt.2 low)

theorem lt_height_iff (s : Sheet) (row : Nat) :
    row < s.height ↔ (s.lastRow?).any (fun last => row ≤ last) = true := by
  cases last : s.lastRow? <;> simp [height, last]

theorem lastRow?_congr {s t : Sheet} (same : ∀ row, s.hasRow row = t.hasRow row) :
    s.lastRow? = t.lastRow? := by
  apply Option.ext
  intro row
  rw [lastRow?, lastRow?, Sparse.lastIndex?_eq_some_iff, Sparse.lastIndex?_eq_some_iff]
  have rows : {i | s.rows.contains i = true} = {i | t.rows.contains i = true} := by
    ext i
    simp only [Set.mem_ofPred_eq]
    exact Bool.eq_iff_iff.1 (same i)
  rw [rows]

theorem height_congr {s t : Sheet} (same : ∀ row, s.hasRow row = t.hasRow row) :
    s.height = t.height := by
  rw [height, lastRow?_congr same, height]

/-- Check every text of a sheet with its place. -/
def allTexts (s : Sheet) (check : Nat → Nat → String → Bool) : Bool :=
  s.rows.entries.all fun (row, cells) =>
    cells.entries.all fun (column, cell) => cell.value.text?.all (check row column)

theorem of_allTexts {s : Sheet} (check : Nat → Nat → String → Bool)
    (checked : s.allTexts check = true) {row column : Nat} {text : String}
    (held : s.text? row column = some text) : check row column text = true := by
  obtain ⟨cell, present, value⟩ := (text?_eq_some_iff ..).1 held
  obtain ⟨cells, inSheet, inRow⟩ := Option.bind_eq_some_iff.1 present
  have rows := List.all_eq_true.1 checked _ ((Sparse.get?_eq_some_iff ..).1 inSheet)
  have here := List.all_eq_true.1 rows _ ((Sparse.get?_eq_some_iff ..).1 inRow)
  dsimp only at here
  rw [value] at here
  exact here

/-- A sheet of texts in the default style. -/
def ofTexts (rows : List (Nat × List (Nat × String))) : Sheet where
  rows := .ofList <| rows.map fun (row, cells) =>
    (row, .ofList <| cells.map fun (column, text) => (column, { value := .text text }))

end Sheet

end Stencil
