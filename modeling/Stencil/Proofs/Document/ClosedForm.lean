import Mathlib
import Stencil.Proofs.Document.Rows

/-! The rows of an expanded table in closed form. A row that names items gives way to as many copies
as its longest collection has items, each with the texts for its items in the place of the first
placeholders, and the copies take the place of the free rows right behind it. No index and no cursor
is part of this: each row is said from the template row and the place of its items alone. -/

namespace Stencil

/-- What is written for an item or for its property. Nothing is written where either is missing. -/
def itemText (options : FillOptions) (property : Option String) (item : Option Value) : String :=
  match item.bind fun item => itemValue? item property with
  | some (value, format) => value.render options format
  | none => ""

namespace TableCell

/-- The items that the first collection placeholder stands for, and the property it asks for. -/
def namedItems? (source : Source) (cell : TableCell) : Option (List Value × Option String) :=
  cell.firstCollection?.bind fun use =>
    (source.items? use.collection).map fun items => (items, use.property)

/-- The cell with the text for the item at a place. It stays as it is if it names no items. -/
def copyAt (source : Source) (options : FillOptions) (place : Nat) (cell : TableCell) : TableCell :=
  match cell.namedItems? source with
  | some (items, property) => cell.exchangeFirst (itemText options property items[place]?)
  | none => cell

end TableCell

namespace TableRow

variable (source : Source)

def isTemplate (row : TableRow) : Bool :=
  row.cells.any fun cell => (cell.namedItems? source).isSome

/-- The items of each column that names some. -/
def itemLists (row : TableRow) : List (List Value) :=
  row.cells.filterMap fun cell => (cell.namedItems? source).map Prod.fst

def longest (row : TableRow) : Nat := ((row.itemLists source).map List.length).foldr max 0

def copies (options : FillOptions) (row : TableRow) : List TableRow :=
  (List.range (row.longest source)).map fun place => ⟨row.cells.map (·.copyAt source options place)⟩

/-- Whether a row holds something below a cell of the template row that names items. -/
def holdsBelow (template row : TableRow) : Bool :=
  (template.cells.zip row.cells).any fun (cell, below) =>
    (cell.namedItems? source).isSome && below.isOccupied

/-- The rows behind a template row, without the free ones that its copies take the place of. -/
def spared (template : TableRow) (rest : List TableRow) : List TableRow :=
  ((rest.take (template.longest source)).dropWhile fun row => !holdsBelow source template row) ++
    rest.drop (template.longest source)

theorem length_spared_le (template : TableRow) (rest : List TableRow) :
    (template.spared source rest).length ≤ rest.length := by
  have fewer := (List.dropWhile_sublist (fun row => !holdsBelow source template row)
    (l := rest.take (template.longest source))).length_le
  rw [List.length_take] at fewer
  rw [spared, List.length_append, List.length_drop]
  omega

end TableRow

/-- A row with one text in each cell. -/
def TableRow.ofTexts (texts : List String) : TableRow :=
  ⟨texts.map fun text => { paragraphs := [⟨[{ text }]⟩] }⟩

namespace Table

/-- The rows that an expansion comes to. -/
def closedForm (source : Source) (options : FillOptions) : List TableRow → List TableRow
  | [] => []
  | row :: rest =>
      if row.isTemplate source then
        row.copies source options ++ closedForm source options (row.spared source rest)
      else row :: closedForm source options rest
termination_by rows => rows.length
decreasing_by
  · exact Nat.lt_succ_of_le (TableRow.length_spared_le ..)
  · exact Nat.lt_succ_self _

/-- The rows that are expanded. -/
def templates (source : Source) : List TableRow → List TableRow
  | [] => []
  | row :: rest =>
      if row.isTemplate source then row :: templates source (row.spared source rest)
      else templates source rest
termination_by rows => rows.length
decreasing_by
  · exact Nat.lt_succ_of_le (TableRow.length_spared_le ..)
  · exact Nat.lt_succ_self _

end Table

/-! ### Cursors -/

namespace ColumnCursor

variable (options : FillOptions)

/-- The text of a column for the row at a place. -/
def textAt (place : Nat) (cursor : ColumnCursor) : String :=
  itemText options cursor.property cursor.pending[place]?

theorem advance_text (cursor : ColumnCursor) :
    (cursor.advance options).1.getD "" = cursor.textAt options 0 := by
  rw [advance, textAt, itemText]
  cases cursor.pending with
  | nil => rfl
  | cons item rest =>
      rw [List.getElem?_cons_zero, Option.bind_some]
      dsimp only
      cases itemValue? item cursor.property <;> rfl

theorem property_advance (cursor : ColumnCursor) :
    (cursor.advance options).2.property = cursor.property := by
  rw [advance]
  cases cursor.pending with
  | nil => rfl
  | cons item rest =>
      dsimp only
      cases itemValue? item cursor.property <;> rfl

theorem textAt_advance (place : Nat) (cursor : ColumnCursor) :
    (cursor.advance options).2.textAt options place = cursor.textAt options (place + 1) := by
  rw [textAt, textAt, property_advance, pending_advance, List.getElem?_tail]

theorem longest_advance (cursors : List ColumnCursor) :
    longest (cursors.map fun cursor => (cursor.advance options).2) = longest cursors - 1 := by
  refine eq_of_forall_ge_iff fun most => ?_
  simp only [Nat.sub_le_iff_le_add, longest_le_iff, List.forall_mem_map, pending_advance,
    List.length_tail]

/-- The rows of texts in closed form, and that no column is lost on the way. -/
theorem generations_eq {steps : Nat} {cursors : List ColumnCursor}
    (enough : longest cursors = steps) :
    (generations options steps cursors).1 =
        (List.range steps).map (fun place => cursors.map (textAt options place)) ∧
      (generations options steps cursors).2.length = cursors.length := by
  induction steps generalizing cursors with
  | zero => exact ⟨rfl, rfl⟩
  | succ steps ih =>
      -- While the longest column has items there is a further row, and all columns go forward.
      have left : ¬ ∀ cursor ∈ cursors, cursor.pending = [] := fun spent => by
        have none : longest cursors ≤ 0 := longest_le_iff.2 fun cursor member =>
          Nat.le_of_eq (congrArg List.length (spent cursor member))
        omega
      have goesOn : generation? options cursors =
          some (cursors.map (textAt options 0),
            cursors.map fun cursor => (cursor.advance options).2) := by
        have found : generation? options cursors ≠ none := mt generation?_eq_none_iff.1 left
        unfold generation? at found ⊢
        dsimp only at found ⊢
        rw [if_neg fun all => found (if_pos all), List.map_map, List.map_map]
        simp only [Function.comp_def, advance_text]
      have shorter : longest (cursors.map fun cursor => (cursor.advance options).2) = steps := by
        rw [longest_advance, enough, Nat.add_sub_cancel]
      obtain ⟨texts, kept⟩ := ih shorter
      rw [generations, goesOn]
      dsimp only
      rw [texts, kept, List.length_map, List.range_succ_eq_map, List.map_cons, List.map_map]
      simp only [List.map_map, Function.comp_def, textAt_advance, Nat.succ_eq_add_one, and_self]

end ColumnCursor

namespace TableRow

variable (source : Source) (options : FillOptions)

/-- The cursor of a cell that names items. -/
def cursorAt? (column : Nat) (cell : TableCell) : Option ColumnCursor :=
  cell.firstCollection?.bind fun use =>
    (source.items? use.collection).map fun items =>
      { column, placeholder := use.sourceText, property := use.property, pending := items }

theorem cursorsFrom_cons (column : Nat) (cell : TableCell) (rest : List TableCell) :
    (cursorsFrom source column (cell :: rest)).1 =
      (cursorAt? source column cell).toList ++ (cursorsFrom source (column + 1) rest).1 := by
  rw [cursorsFrom, cursorAt?]
  cases cell.firstCollection? with
  | none => rfl
  | some use =>
      rw [Option.bind_some]
      dsimp only
      cases source.items? use.collection <;> rfl

theorem namedItems?_eq (column : Nat) (cell : TableCell) :
    cell.namedItems? source =
      (cursorAt? source column cell).map fun cursor => (cursor.pending, cursor.property) := by
  rw [TableCell.namedItems?, cursorAt?, Option.map_bind]
  simp only [Function.comp_def, Option.map_map]

variable {source} in
theorem column_of_cursorAt? {column : Nat} {cell : TableCell} {cursor : ColumnCursor}
    (found : cursorAt? source column cell = some cursor) : cursor.column = column := by
  obtain ⟨use, -, named⟩ := Option.bind_eq_some_iff.1 found
  obtain ⟨items, -, rfl⟩ := Option.map_eq_some_iff.1 named
  rfl

theorem copyAt_eq (column place : Nat) (cell : TableCell) :
    cell.copyAt source options place =
      match cursorAt? source column cell with
      | some cursor => cell.exchangeFirst (cursor.textAt options place)
      | none => cell := by
  rw [TableCell.copyAt, namedItems?_eq source column]
  cases cursorAt? source column cell <;> rfl

theorem pending_cursorsFrom (column : Nat) (cells : List TableCell) :
    (cursorsFrom source column cells).1.map ColumnCursor.pending =
      cells.filterMap fun cell => (cell.namedItems? source).map Prod.fst := by
  induction cells generalizing column with
  | nil => rfl
  | cons cell rest ih =>
      rw [cursorsFrom_cons, List.map_append, ih, List.filterMap_cons, namedItems?_eq source column]
      cases cursorAt? source column cell <;> rfl

theorem isEmpty_cursorsFrom (column : Nat) (cells : List TableCell) :
    (cursorsFrom source column cells).1.isEmpty = !isTemplate source ⟨cells⟩ := by
  rw [isTemplate]
  induction cells generalizing column with
  | nil => rfl
  | cons cell rest ih =>
      rw [cursorsFrom_cons, List.any_cons, namedItems?_eq source column]
      cases cursorAt? source column cell with
      | none => exact ih (column + 1)
      | some cursor => rfl

theorem longest_cursorsFrom (row : TableRow) :
    ColumnCursor.longest (cursorsFrom source 0 row.cells).1 = row.longest source := by
  have below (most : Nat) (sizes : List Nat) :
      sizes.foldr max 0 ≤ most ↔ ∀ size ∈ sizes, size ≤ most := by
    induction sizes with
    | nil => simp
    | cons size rest ih => rw [List.foldr_cons, Nat.max_le, ih, List.forall_mem_cons]
  refine eq_of_forall_ge_iff fun most => ?_
  rw [ColumnCursor.longest_le_iff, longest, below, itemLists, ← pending_cursorsFrom source 0,
    List.map_map, List.forall_mem_map]
  rfl

/-- The columns of the cursors are those of the cells that name items. -/
theorem isOccupied_cursorsFrom (row : TableRow) (column : Nat) (cells : List TableCell) :
    row.isOccupied ((cursorsFrom source column cells).1.map ColumnCursor.column) =
      (cells.zip (row.cells.drop column)).any fun (cell, below) =>
        (cell.namedItems? source).isSome && below.isOccupied := by
  induction cells generalizing column with
  | nil => rfl
  | cons cell rest ih =>
      have later := ih (column + 1)
      have split : row.cells.drop column =
          row.cells[column]?.toList ++ row.cells.drop (column + 1) :=
        List.drop_eq_getElem?_toList_append
      rw [isOccupied] at later ⊢
      rw [cursorsFrom_cons, List.map_append, List.any_append, later, split]
      cases there : row.cells[column]? with
      | none =>
          -- The row ends before this column, so it holds nothing here or further on.
          have behind : row.cells.drop (column + 1) = [] :=
            List.drop_eq_nil_of_le (Nat.le_succ_of_le (List.getElem?_eq_none_iff.1 there))
          rw [behind]
          cases found : cursorAt? source column cell with
          | none => simp
          | some cursor => simp [column_of_cursorAt? found, there]
      | some below =>
          rw [Option.toList_some, List.singleton_append, List.zip_cons_cons, List.any_cons]
          dsimp only
          rw [namedItems?_eq source column]
          cases found : cursorAt? source column cell with
          | none => rfl
          | some cursor => simp [column_of_cursorAt? found, there]

/-- Filling in the texts of the cursors copies each cell. -/
theorem substituteAll_cursorsFrom (place : Nat) (passed cells : List TableCell) :
    substituteAll ((cursorsFrom source passed.length cells).1.map fun cursor =>
        (cursor.column, cursor.textAt options place)) ⟨passed ++ cells⟩ =
      .done ⟨passed ++ cells.map (·.copyAt source options place)⟩ () := by
  induction cells generalizing passed with
  | nil => rfl
  | cons cell rest ih =>
      have later := ih (passed ++ [cell.copyAt source options place])
      rw [List.length_append, List.length_singleton, List.append_assoc, List.append_assoc,
        List.singleton_append, List.singleton_append,
        copyAt_eq source options passed.length] at later
      rw [cursorsFrom_cons, List.map_append, List.map_cons, copyAt_eq source options passed.length]
      cases found : cursorAt? source passed.length cell with
      | none =>
          rw [found] at later
          exact later
      | some cursor =>
          rw [found] at later
          have here : (passed ++ cell :: rest)[passed.length]? = some cell := by
            rw [List.getElem?_append_right (Nat.le_refl _), Nat.sub_self, List.getElem?_cons_zero]
          rw [Option.toList_some, List.map_singleton, List.singleton_append, substituteAll,
            column_of_cursorAt? found, here]
          dsimp only
          have placed : (passed ++ cell :: rest).set passed.length
              (cell.exchangeFirst (cursor.textAt options place)) =
              passed ++ cell.exchangeFirst (cursor.textAt options place) :: rest := by
            rw [List.set_append_right _ _ (Nat.le_refl _), Nat.sub_self, List.set_cons_zero]
          rw [TableCell.substituteFirst_eq, Attempt.within_done, Attempt.andThen_done, placed]
          exact later

theorem filledWith_cursorsFrom (place : Nat) (row : TableRow) :
    let cursors := (cursorsFrom source 0 row.cells).1
    row.filledWith ((cursors.map ColumnCursor.column).zip
        (cursors.map (ColumnCursor.textAt options place))) =
      ⟨row.cells.map (·.copyAt source options place)⟩ := by
  intro cursors
  rw [List.zip_map', filledWith]
  exact congrArg Attempt.target (substituteAll_cursorsFrom source options place [] row.cells)

theorem leftAfter_eq (columns : List Nat) (count : Nat) (rows : List TableRow) :
    leftAfter columns count rows =
      ((rows.take count).dropWhile fun row => !row.isOccupied columns) ++ rows.drop count := by
  induction count generalizing rows with
  | zero => rfl
  | succ count ih =>
      cases rows with
      | nil => rfl
      | cons row rest =>
          rw [List.take_succ_cons, List.drop_succ_cons]
          cases occupied : row.isOccupied columns with
          | true =>
              rw [leftAfter_of_occupied occupied, List.dropWhile_cons_of_neg (by simp [occupied]),
                List.cons_append, List.take_append_drop]
          | false =>
              rw [leftAfter_of_free occupied, List.dropWhile_cons_of_pos (by simp [occupied]), ih]

theorem leftAfter_cursorsFrom (row : TableRow) (rest : List TableRow) :
    leftAfter ((cursorsFrom source 0 row.cells).1.map ColumnCursor.column) (row.longest source)
      rest = row.spared source rest := by
  rw [leftAfter_eq, spared]
  simp only [isOccupied_cursorsFrom, List.drop_zero, holdsBelow]

end TableRow

namespace Table

variable (source : Source) (options : FillOptions)

theorem expansion_of_plain {row : TableRow} (plain : row.isTemplate source = false)
    (rest : List TableRow) :
    ∃ unresolved, expansion source options (row :: rest) =
      (row :: (expansion source options rest).1,
        Outcome.merge { unresolved } (expansion source options rest).2) := by
  have columns := TableRow.isEmpty_cursorsFrom source 0 row.cells
  rw [plain, Bool.not_false] at columns
  rw [expansion]
  generalize TableRow.cursorsFrom source 0 row.cells = read at columns ⊢
  obtain ⟨cursors, unresolved⟩ := read
  dsimp only at columns ⊢
  rw [if_pos columns]
  exact ⟨unresolved, rfl⟩

theorem expansion_of_template {row : TableRow} (found : row.isTemplate source = true)
    (rest : List TableRow) :
    ∃ unresolved, expansion source options (row :: rest) =
      (row.copies source options ++ (expansion source options (row.spared source rest)).1,
        Outcome.merge
          { expanded := (row.itemLists source).length
            rowsEmitted := row.longest source
            unresolved } (expansion source options (row.spared source rest)).2) := by
  have columns := TableRow.isEmpty_cursorsFrom source 0 row.cells
  rw [found, Bool.not_true] at columns
  have number : (TableRow.cursorsFrom source 0 row.cells).1.length =
      (row.itemLists source).length := by
    rw [TableRow.itemLists, ← TableRow.pending_cursorsFrom source 0, List.length_map]
  have longest := TableRow.longest_cursorsFrom source row
  -- What is known of the cursors is stated first; the row itself is not looked at again.
  have filled := fun place => TableRow.filledWith_cursorsFrom source options place row
  have left := TableRow.leftAfter_cursorsFrom source row rest
  rw [expansion]
  generalize TableRow.cursorsFrom source 0 row.cells = read at columns number longest filled left ⊢
  obtain ⟨cursors, unresolved⟩ := read
  obtain ⟨texts, kept⟩ := ColumnCursor.generations_eq options longest
  dsimp only at columns number longest filled left texts kept ⊢
  rw [if_neg (Bool.eq_false_iff.1 columns), longest]
  generalize ColumnCursor.generations options (row.longest source) cursors = spelled at texts kept ⊢
  obtain ⟨written, spent⟩ := spelled
  dsimp only at texts kept ⊢
  subst texts
  rw [List.length_map, List.length_range, List.map_map, left, kept, number]
  simp only [Function.comp_def, filled]
  exact ⟨_, rfl⟩

theorem expansion_eq (rows : List TableRow) :
    (expansion source options rows).1 = closedForm source options rows ∧
    (expansion source options rows).2.filled = 0 ∧
    (expansion source options rows).2.expanded =
      ((templates source rows).map fun row => (row.itemLists source).length).sum ∧
    (expansion source options rows).2.rowsEmitted =
      ((templates source rows).map fun row => row.longest source).sum := by
  fun_induction closedForm source options rows with
  | case1 => simp [expansion, templates]
  | case2 row rest found ih =>
      obtain ⟨same, filled, expanded, emitted⟩ := ih
      obtain ⟨unresolved, step⟩ := expansion_of_template source options found rest
      rw [step, templates, if_pos found, same, List.map_cons, List.map_cons, List.sum_cons,
        List.sum_cons, ← expanded, ← emitted]
      exact ⟨rfl, (Nat.zero_add _).trans filled, rfl, rfl⟩
  | case3 row rest plain ih =>
      obtain ⟨same, filled, expanded, emitted⟩ := ih
      obtain ⟨unresolved, step⟩ :=
        expansion_of_plain source options (Bool.eq_false_iff.2 plain) rest
      rw [step, templates, if_neg plain, same, ← expanded, ← emitted]
      exact ⟨rfl, (Nat.zero_add _).trans filled, Nat.zero_add _, Nat.zero_add _⟩

/-- Expanding a table that is not called off ends without an error in the rows of the closed form.
It counts every column of every template row, and a row for each item of the longest. -/
theorem expand_closedForm (t : Table) :
    ∃ outcome, t.expand source options false =
        .done ⟨closedForm source options t.rows⟩ outcome ∧
      outcome.filled = 0 ∧
      outcome.expanded =
        ((templates source t.rows).map fun row => (row.itemLists source).length).sum ∧
      outcome.rowsEmitted = ((templates source t.rows).map fun row => row.longest source).sum := by
  obtain ⟨same, counts⟩ := expansion_eq source options t.rows
  refine ⟨(expansion source options t.rows).2, ?_, counts⟩
  rw [expand_eq, same]

/-- Three guests take the place of the template row and of the free row behind it. The third host
is missing. -/
example :
    let data : Value := .mapping [("guests", .sequence [.text "Ann", .text "Bob", .text "Cid"]),
      ("hosts", .sequence [.text "Eve", .text "Fay"])]
    closedForm (.ofValue data) {} [.ofTexts ["Name", ""], .ofTexts ["Dr [guests]!", "[hosts]"],
      .ofTexts [" ", ""], .ofTexts ["Total", ""]] =
    [.ofTexts ["Name", ""], .ofTexts ["Dr Ann!", "Eve"], .ofTexts ["Dr Bob!", "Fay"],
      .ofTexts ["Dr Cid!", ""], .ofTexts ["Total", ""]] := by
  cbv

end Table

end Stencil
