import Stencil.Proofs.Sheet.Room

/-! Shifting rows inserts empty rows: the rows above stay, those behind move down with their cells,
and the merged regions move and grow with them. -/

namespace Stencil

namespace Sparse

variable {α : Type}

theorem moved_moved (start first second index : Nat) :
    moved start second (moved start first index) = moved start (first + second) index := by
  unfold moved
  split_ifs <;> omega

theorem moved_injective (start count : Nat) : Function.Injective (moved start count) := by
  intro a b same
  unfold moved at same
  split_ifs at same <;> omega

/-- An entry comes from exactly one place before. -/
theorem existsUnique_of_get?_shift {s : Sparse α} {start count index : Nat} {x : α}
    (found : (s.shift start count).get? index = some x) :
    ∃! old, moved start count old = index ∧ s.get? old = some x := by
  obtain ⟨⟨old, y⟩, member, same⟩ := List.mem_map.1 ((get?_eq_some_iff ..).1 found)
  cases same
  refine ⟨old, ⟨rfl, (get?_eq_some_iff ..).2 member⟩, ?_⟩
  rintro other ⟨place, -⟩
  exact moved_injective start count place

theorem shift_shift_same (s : Sparse α) (start first second : Nat) :
    (s.shift start first).shift start second = s.shift start (first + second) := by
  apply ext
  simp only [shift, List.map_map, Function.comp_def, moved_moved]

end Sparse

namespace Region

/-- Rows that are inserted twice at one place are inserted together. -/
theorem shift_shift_same (region : Region) (start first second : Nat) :
    (region.shift start first).shift start second = region.shift start (first + second) := by
  unfold shift
  split_ifs <;> simp_all <;> omega

theorem shift_mono (region : Region) (start : Nat) {less count : Nat} (le : less ≤ count) :
    (region.shift start less).firstRow ≤ (region.shift start count).firstRow ∧
      (region.shift start less).lastRow ≤ (region.shift start count).lastRow := by
  unfold shift
  split_ifs <;> simp <;> omega

end Region

namespace Sheet

/-- What a sheet becomes when `count` rows are inserted before the row `start`. -/
structure Inserted (s next : Sheet) (start count : Nat) : Prop where
  name : next.name = s.name
  above : ∀ row, row < start → next.rows.get? row = s.rows.get? row
  behind : ∀ row, start ≤ row → next.rows.get? (row + count) = s.rows.get? row
  gap : ∀ row, start ≤ row → row < start + count → next.hasRow row = false
  rowCount : next.rows.entries.length = s.rows.entries.length
  /-- No row comes from nowhere, and none is there twice. -/
  origin : ∀ row cells, next.rows.get? row = some cells →
    ∃! old, Sparse.moved start count old = row ∧ s.rows.get? old = some cells
  cells : ∀ row column, next.cell? (Sparse.moved start count row) column = s.cell? row column
  isMerged : ∀ row column,
    next.isMerged (Sparse.moved start count row) column = s.isMerged row column
  regionCount : next.merged.length = s.merged.length
  /-- A region holds the places that it held before, wherever they are now. Of the inserted rows it
  holds those that lie between rows of it. -/
  regions : ∀ (i : Nat) (region : Region), s.merged[i]? = some region →
    ∃ shifted, next.merged[i]? = some shifted ∧
      shifted.firstColumn = region.firstColumn ∧ shifted.lastColumn = region.lastColumn ∧
      (∀ row column,
        shifted.contains (Sparse.moved start count row) column = region.contains row column) ∧
      ∀ row column, start ≤ row → row < start + count →
        (shifted.contains row column = true ↔
          region.firstRow < start ∧ region.contains start column = true)

theorem inserted_shiftRows (s : Sheet) (start count : Nat) :
    s.Inserted (s.shiftRows start count) start count where
  name := rfl
  above row high := by rw [row_shiftRows, if_pos high]
  behind row low := by
    rw [row_shiftRows, if_neg (by omega), if_neg (by omega), Nat.add_sub_cancel]
  gap row low high := by
    rw [hasRow_eq_isSome, row_shiftRows, if_neg (Nat.not_lt.2 low), if_pos high]
    rfl
  rowCount := List.length_map ..
  origin row cells found := Sparse.existsUnique_of_get?_shift found
  cells row column := cell?_congr (Sparse.get?_shift_moved s.rows start count row) column
  isMerged row column := isMerged_shiftRows s start count row column
  regionCount := List.length_map ..
  regions i region found := by
    obtain ⟨first, last⟩ := region.columns_shift start count
    refine ⟨region.shift start count, ?_, first, last, region.contains_shift start count, ?_⟩
    · rw [shiftRows, wrap_endless, List.getElem?_map, found, Option.map_some]
    · exact fun row column low high => Region.contains_gap_iff low high

theorem shiftRows_shiftRows_same (s : Sheet) (start first second : Nat) :
    (s.shiftRows start first).shiftRows start second = s.shiftRows start (first + second) := by
  simp only [shiftRows, wrap_endless, Sparse.shift_shift_same, List.map_map, Function.comp_def,
    Region.shift_shift_same]

theorem room_of_shiftRows {c : Counting} {s : Sheet} {start less count : Nat}
    (room : (s.shiftRows start count).Room c 0) (le : less ≤ count) :
    (s.shiftRows start less).Room c 0 where
  rows row present := by
    obtain ⟨cells, held⟩ := Option.isSome_iff_exists.1 present
    obtain ⟨old, ⟨place, there⟩, -⟩ := Sparse.existsUnique_of_get?_shift held
    have moved : (s.shiftRows start count).hasRow (Sparse.moved start count old) = true := by
      rw [hasRow_eq_isSome]
      exact (congrArg Option.isSome ((Sparse.get?_shift_moved s.rows start count old).trans there))
    refine (room.rows _ moved).mono ?_
    unfold Sparse.moved at place ⊢
    split at place <;> split <;> omega
  regions region member := by
    rw [shiftRows, wrap_endless, List.mem_map] at member
    obtain ⟨before, inside, rfl⟩ := member
    obtain ⟨first, last⟩ := room.regions _ (List.mem_map_of_mem (f := (·.shift start count)) inside)
    obtain ⟨low, high⟩ := before.shift_mono start le
    exact ⟨first.mono low, last.mono high⟩

/-- Shifting rows inserts empty rows and does nothing else, and rows that are inserted in two steps
at one place are inserted together, where no row and no region is pushed past the last place. -/
theorem shiftRows_inserts (s : Sheet) (start count more : Nat) (c : Counting)
    (room : (s.shiftRows start (count + more)).Room c 0) :
    s.Inserted (s.shiftRows start count c) start count ∧
      (s.shiftRows start count c).shiftRows start more c =
        s.shiftRows start (count + more) c := by
  have first : s.shiftRows start count c = s.shiftRows start count :=
    wrap_eq_self (room_of_shiftRows room (Nat.le_add_right count more))
  have both : s.shiftRows start (count + more) c = s.shiftRows start (count + more) :=
    wrap_eq_self room
  have second : (s.shiftRows start count).shiftRows start more c =
      (s.shiftRows start count).shiftRows start more := by
    rw [← shiftRows_shiftRows_same] at room
    exact wrap_eq_self room
  rw [first, second, both, shiftRows_shiftRows_same]
  exact ⟨s.inserted_shiftRows start count, rfl⟩

/-- A table of two rows with a merged region over both, and one behind it. -/
def table : Sheet :=
  { ofTexts [(1, [(0, "Name")]), (2, [(0, "Total")])] with merged := [⟨1, 2, 1, 1⟩, ⟨4, 5, 0, 0⟩] }

/-- Two rows, and then one more, are inserted before the total. -/
theorem table_inserted :
    (table.shiftRows 2 (2 + 1)).Room .words 0 ∧
      table.Inserted (table.shiftRows 2 2 .words) 2 2 ∧
      (table.shiftRows 2 2 .words).shiftRows 2 1 .words = table.shiftRows 2 3 .words := by
  have room : (table.shiftRows 2 (2 + 1)).Room .words 0 := by decide
  exact ⟨room, shiftRows_inserts table 2 2 1 .words room⟩

/-- A region around the inserted rows grows, one behind them moves, and one whose bounds are in the
wrong order keeps them so. -/
example :
    (({ merged := [⟨1, 3, 0, 1⟩, ⟨2, 2, 0, 0⟩, ⟨4, 1, 0, 0⟩] } : Sheet).shiftRows 2 3).merged =
      [⟨1, 6, 0, 1⟩, ⟨5, 5, 0, 0⟩, ⟨7, 4, 0, 0⟩] := by decide

end Sheet

end Stencil
