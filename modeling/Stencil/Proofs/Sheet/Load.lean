import Stencil.Proofs.Sheet.Visit

/-! The load of a sheet: what the values in its cells weigh together, where a weight may depend
on the place. An expansion takes the weight of its template away and adds that of what it
writes. -/

namespace Stencil

namespace Sheet

/-- What all cells weigh together. -/
def load (f : Nat → Nat → CellValue → Nat) (s : Sheet) : Nat :=
  s.rows.total fun row cells => cells.total fun column cell => f row column cell.value

variable {f g : Nat → Nat → CellValue → Nat} {s : Sheet}

theorem load_mono
    (le : ∀ row column cell, s.cell? row column = some cell →
      f row column cell.value ≤ g row column cell.value) : s.load f ≤ s.load g := by
  apply Sparse.total_mono
  intro row cells present
  apply Sparse.total_mono
  intro column cell held
  exact le row column cell (Option.bind_eq_some_iff.2 ⟨cells, present, held⟩)

theorem load_congr
    (same : ∀ row column cell, s.cell? row column = some cell →
      f row column cell.value = g row column cell.value) : s.load f = s.load g :=
  Nat.le_antisymm (load_mono fun row column cell held => Nat.le_of_eq (same row column cell held))
    (load_mono fun row column cell held => Nat.le_of_eq (same row column cell held).symm)

theorem load_eq_zero
    (zero : ∀ row column cell, s.cell? row column = some cell → f row column cell.value = 0) :
    s.load f = 0 := by
  apply Sparse.total_eq_zero
  intro row cells present
  apply Sparse.total_eq_zero
  intro column cell held
  exact zero row column cell (Option.bind_eq_some_iff.2 ⟨cells, present, held⟩)

theorem le_load (f : Nat → Nat → CellValue → Nat) {row column : Nat} {cell : Cell}
    (held : s.cell? row column = some cell) : f row column cell.value ≤ s.load f := by
  obtain ⟨cells, present, inRow⟩ := Option.bind_eq_some_iff.1 held
  calc
    f row column cell.value ≤ cells.total fun column cell => f row column cell.value :=
      Sparse.le_total (fun column (cell : Cell) => f row column cell.value) inRow
    _ ≤ s.load f :=
      Sparse.le_total (fun row (cells : Row) =>
        cells.total fun column cell => f row column cell.value) present

theorem load_shiftRows (f : Nat → Nat → CellValue → Nat) (s : Sheet) (start count : Nat) :
    (s.shiftRows start count).load f = s.load fun row => f (Sparse.moved start count row) :=
  Sparse.total_shift ..

/-- A cell that is changed takes its old weight away and adds its new one. -/
theorem load_updateCell (blank : ∀ row column, f row column .blank = 0) (s : Sheet)
    (row column : Nat) (change : Cell → Cell) :
    (s.updateCell row column change).load f + f row column ((s.cell? row column).getD {}).value =
      s.load f + f row column (change ((s.cell? row column).getD {})).value := by
  have outer := Sparse.total_update
    (fun row (cells : Row) => cells.total fun column cell => f row column cell.value) s.rows row
    .empty fun cells => cells.update column {} change
  have inner := Sparse.total_update (fun column (cell : Cell) => f row column cell.value)
    ((s.rows.get? row).getD .empty) column {} change
  change (s.updateCell row column change).load f + _ = s.load f + _ at outer
  unfold cell?
  cases present : s.rows.get? row with
  | none =>
      simp only [present, Option.getD_none, Option.elim_none, Sparse.get?_empty,
        Sparse.total_empty, Option.bind_none, blank] at outer inner ⊢
      omega
  | some cells =>
      simp only [present, Option.getD_some, Option.elim_some, Option.bind_some] at outer inner ⊢
      cases held : cells.get? column with
      | none =>
          simp only [held, Option.elim_none, Option.getD_none, blank] at inner ⊢
          omega
      | some cell =>
          simp only [held, Option.elim_some, Option.getD_some] at inner ⊢
          omega

theorem load_setValue (blank : ∀ row column, f row column .blank = 0) (s : Sheet)
    (row column : Nat) (value : CellValue) :
    (s.setValue row column value).load f + f row column ((s.cell? row column).getD {}).value =
      s.load f + f row column value :=
  load_updateCell blank s row column _

theorem load_setStyle (blank : ∀ row column, f row column .blank = 0) (s : Sheet)
    (row column : Nat) (style : UInt32) : (s.setStyle row column style).load f = s.load f :=
  Nat.add_right_cancel (load_updateCell blank s row column fun cell => { cell with style })

theorem load_createRow (f : Nat → Nat → CellValue → Nat) (s : Sheet) (row : Nat) :
    (s.createRow row).load f = s.load f := by
  have same := Sparse.total_update
    (fun row (cells : Row) => cells.total fun column cell => f row column cell.value) s.rows row
    .empty id
  change (s.createRow row).load f + _ = s.load f + _ at same
  cases present : s.rows.get? row with
  | none =>
      simp only [present, Option.elim_none, Option.getD_none, id, Sparse.total_empty] at same
      omega
  | some cells =>
      simp only [present, Option.elim_some, Option.getD_some, id] at same
      omega

end Sheet

namespace Expansion

variable {f : Nat → Nat → CellValue → Nat} {e : Expansion} {options : FillOptions}
  {offset : Nat} {item : Value} {st : Emission}

theorem load_freshRow (blank : ∀ row column, f row column .blank = 0) (e : Expansion)
    (s : Sheet) (target : Nat) : (e.freshRow s target).load f = s.load f :=
  e.freshRow_keeps (fun u => u.load f = s.load f) (Sheet.load_createRow ..)
    fun _ _ _ same => (Sheet.load_setStyle blank ..).trans same

private theorem load_prepare (blank : ∀ row column, f row column .blank = 0)
    (usable : e.rowState st.sheet offset ≠ .taken) :
    (e.prepare offset st).sheet.load f = st.sheet.load f := by
  unfold prepare
  cases state : e.rowState st.sheet offset with
  | taken => exact absurd state usable
  | missing => exact load_freshRow blank ..
  | free =>
      cases style : e.anchorStyle with
      | none => rfl
      | some style => exact Sheet.load_setStyle blank ..

private theorem value_prepare (usable : e.rowState st.sheet offset ≠ .taken) :
    (((e.prepare offset st).sheet.cell? (e.anchor + offset) e.column).getD {}).value =
      ((st.sheet.cell? (e.anchor + offset) e.column).getD {}).value := by
  rw [prepare_eq]
  cases state : e.rowState st.sheet offset with
  | taken => exact absurd state usable
  | missing =>
      have absent := absent_of_missing state
      simp only [Sheet.cell?, row_freshRow e _ absent, absent, if_true, Option.bind_some,
        Option.bind_none]
      exact e.styledRow_blank e.column
  | free =>
      cases style : e.anchorStyle with
      | none => rfl
      | some style =>
          simp only [Sheet.setStyle, Sheet.cell?_updateCell, and_self, if_true, Option.getD_some]

/-- A value that is written where it is takes away the weight of what was there. -/
theorem load_writeItem_of_not_taken (blank : ∀ row column, f row column .blank = 0)
    (usable : e.rowState st.sheet offset ≠ .taken) :
    (e.writeItem options offset item st).sheet.load f +
        f (e.anchor + offset) e.column
          ((st.sheet.cell? (e.anchor + offset) e.column).getD {}).value =
      st.sheet.load f + f (e.anchor + offset) e.column (e.cellOf options item) := by
  have written := Sheet.load_setValue blank (e.prepare offset st).sheet (e.anchor + offset)
    e.column (e.cellOf options item)
  rw [load_prepare blank usable, value_prepare usable] at written
  exact written

/-- A row that is inserted adds the weight of its value to what the rows weigh in their new
places. -/
theorem load_writeItem_of_taken (blank : ∀ row column, f row column .blank = 0)
    (taken : e.rowState st.sheet offset = .taken) :
    (e.writeItem options offset item st).sheet.load f =
      st.sheet.load (fun row => f (Sparse.moved (e.anchor + offset) 1 row)) +
        f (e.anchor + offset) e.column (e.cellOf options item) := by
  have absent : (st.sheet.shiftRows (e.anchor + offset) 1).rows.get? (e.anchor + offset) =
      none := by
    rw [Sheet.row_shiftRows, if_neg (by omega), if_pos (by omega)]
  have written := Sheet.load_setValue blank (e.prepare offset st).sheet (e.anchor + offset)
    e.column (e.cellOf options item)
  have fresh : (((e.prepare offset st).sheet.cell? (e.anchor + offset) e.column).getD {}).value =
      .blank := by
    simp only [prepare_eq, taken, Sheet.cell?, row_freshRow e _ absent, if_true, Option.bind_some]
    exact e.styledRow_blank e.column
  have shifted : (e.prepare offset st).sheet.load f =
      st.sheet.load fun row => f (Sparse.moved (e.anchor + offset) 1 row) := by
    simp only [prepare_eq, taken, load_freshRow blank, Sheet.load_shiftRows]
  rw [fresh, blank, Nat.add_zero, shifted] at written
  exact written

/-- The load that a batch of items adds is at most the weight of what is written for them, if the
rows weigh the same wherever they are pushed. -/
theorem load_writeItems_le {weight : CellValue → Nat} {items : List Value} {last : Emission}
    (blank : ∀ row column, f row column .blank = 0)
    (steady : ∀ start, e.anchor + offset ≤ start → ∀ row, f (Sparse.moved start 1 row) = f row)
    (bound : ∀ row value, f row e.column value ≤ weight value)
    (ran : e.writeItems options false offset items st = .done last ()) :
    last.sheet.load f ≤
      st.sheet.load f + (items.map fun item => weight (e.cellOf options item)).sum := by
  induction items generalizing offset st with
  | nil =>
      cases ran
      exact Nat.le_add_right ..
  | cons item rest ih =>
      rw [writeItems, if_neg Bool.false_ne_true] at ran
      have later := ih (fun start low => steady start (Nat.le_of_succ_le low)) ran
      have here := bound (e.anchor + offset) (e.cellOf options item)
      have next : (e.writeItem options offset item st).sheet.load f ≤
          st.sheet.load f + f (e.anchor + offset) e.column (e.cellOf options item) := by
        by_cases taken : e.rowState st.sheet offset = .taken
        · apply Nat.le_of_eq
          rw [load_writeItem_of_taken blank taken]
          simp only [steady _ (Nat.le_refl _)]
        · rw [← load_writeItem_of_not_taken blank taken]
          exact Nat.le_add_right ..
      rw [List.map_cons, List.sum_cons]
      omega

/-- Items behind the first add just their own weight, if no weight is given to what has no
content. -/
theorem load_writeItems {weight : CellValue → Nat} {items : List Value} {last : Emission}
    (light : ∀ value, value.hasContent = false → weight value = 0) (behind : 0 < offset)
    (ran : e.writeItems options false offset items st = .done last ()) :
    last.sheet.load (fun _ _ => weight) = st.sheet.load (fun _ _ => weight) +
      (items.map fun item => weight (e.cellOf options item)).sum := by
  induction items generalizing offset st with
  | nil =>
      cases ran
      rfl
  | cons item rest ih =>
      rw [writeItems, if_neg Bool.false_ne_true] at ran
      have later := ih (Nat.succ_pos offset) ran
      have blank : weight .blank = 0 := light .blank rfl
      have next : (e.writeItem options offset item st).sheet.load (fun _ _ => weight) =
          st.sheet.load (fun _ _ => weight) + weight (e.cellOf options item) := by
        by_cases taken : e.rowState st.sheet offset = .taken
        · exact load_writeItem_of_taken (fun _ _ => blank) taken
        · have free : weight ((st.sheet.cell? (e.anchor + offset) e.column).getD {}).value = 0 := by
            cases held : st.sheet.cell? (e.anchor + offset) e.column with
            | none => exact blank
            | some cell =>
                apply light
                by_contra content
                rw [Option.getD_some, Bool.not_eq_false] at content
                apply taken
                rw [rowState_eq_taken_iff]
                refine ⟨Sheet.hasRow_of_cell? held, .inr ⟨behind, ?_⟩⟩
                rw [Sheet.value?, held]
                exact content
          have written : (e.writeItem options offset item st).sheet.load (fun _ _ => weight) + _ = _ :=
            load_writeItem_of_not_taken (fun _ _ => blank) taken
          rw [free, Nat.add_zero] at written
          exact written
      rw [later, next, List.map_cons, List.sum_cons, Nat.add_assoc]

end Expansion

/-- What a walk still has before it when it comes to a cell, where values may weigh differently in
different columns. -/
def pending (row column : Nat) (weight : Nat → CellValue → Nat) (r c : Nat)
    (value : CellValue) : Nat :=
  if row < r ∨ r = row ∧ column ≤ c then weight c value else 0

section pending

variable {row column : Nat} {weight : Nat → CellValue → Nat}

theorem pending_blank (blank : ∀ c, weight c .blank = 0) (row column r c : Nat) :
    pending row column weight r c .blank = 0 := by
  unfold pending
  split
  · exact blank c
  · rfl

theorem pending_le (row column : Nat) (weight : Nat → CellValue → Nat) (r c : Nat)
    (value : CellValue) : pending row column weight r c value ≤ weight c value := by
  unfold pending
  split
  · exact Nat.le_refl _
  · exact Nat.zero_le _

/-- A walk has less before it at a later cell. -/
theorem pending_mono {row' column' : Nat} (later : row < row' ∨ row = row' ∧ column ≤ column')
    (r c : Nat) (value : CellValue) :
    pending row' column' weight r c value ≤ pending row column weight r c value := by
  unfold pending
  split
  · rw [if_pos (by omega)]
  · exact Nat.zero_le _

/-- Rows that are pushed down from below the row of the walk stay before it. -/
theorem pending_moved {start : Nat} (low : row < start) (r : Nat) :
    pending row column weight (Sparse.moved start 1 r) = pending row column weight r := by
  funext c value
  rcases Nat.lt_or_ge r start with above | below
  · rw [Sparse.moved_of_lt above]
  · rw [Sparse.moved_of_le below, pending, pending, if_pos (.inl (by omega)),
      if_pos (.inl (by omega))]

/-- The row of the walk comes before it as a whole when it is pushed down. -/
theorem pending_pushed (light : ∀ c < column, ∀ value, weight c value = 0) (column' r : Nat) :
    pending row column' weight (Sparse.moved row 1 r) = pending row column weight r := by
  funext c value
  rcases Nat.lt_or_ge r row with above | below
  · rw [Sparse.moved_of_lt above, pending, pending, if_neg (by omega), if_neg (by omega)]
  · rw [Sparse.moved_of_le below, pending, if_pos (.inl (by omega)), pending]
    split
    · rfl
    · exact light c (by omega) value

/-- Behind a cell all is pending but the cell. -/
theorem Sheet.load_pending_succ {s : Sheet} {cell : Cell} (held : s.cell? row column = some cell)
    (blank : ∀ c, weight c .blank = 0) :
    s.load (pending row (column + 1) weight) + weight column cell.value =
      s.load (pending row column weight) := by
  -- without the cell the two loads are the same
  have emptied : (s.setValue row column .blank).load (pending row (column + 1) weight) =
      (s.setValue row column .blank).load (pending row column weight) := by
    apply load_congr
    intro r c other there
    by_cases here : r = row ∧ c = column
    · rw [setValue, cell?_updateCell, if_pos here] at there
      cases there
      rw [pending_blank blank, pending_blank blank]
    · have same : (row < r ∨ r = row ∧ column + 1 ≤ c) ↔ (row < r ∨ r = row ∧ column ≤ c) := by
        omega
      simp only [pending, same]
  have before := load_setValue (pending_blank blank row column) s row column .blank
  have after := load_setValue (pending_blank blank row (column + 1)) s row column .blank
  have counted : pending row column weight row column cell.value = weight column cell.value :=
    if_pos (.inr ⟨rfl, Nat.le_refl column⟩)
  have passed : pending row (column + 1) weight row column cell.value = 0 := if_neg (by omega)
  rw [held, Option.getD_some, pending_blank blank, Nat.add_zero] at before after
  rw [counted] at before
  rw [passed] at after
  omega

end pending

namespace Expanded

variable {source : Source} {options : FillOptions} {s : Sheet} {row column : Nat}
  {weight : Nat → CellValue → Nat} {item : Value} {rest : List Value}

/-- The sheet after the first item. -/
def afterFirst (x : Expanded source options s row column) (item : Value) : Sheet :=
  ((s.expansion x.template x.use row column).writeItem options 0 item
    { sheet := s, templateRow := row }).sheet

private theorem load_rest (x : Expanded source options s row column)
    (shape : x.items = item :: rest) (blank : ∀ c, weight c .blank = 0) :
    x.st.sheet.load (pending row (column + 1) weight) ≤
      (x.afterFirst item).load (pending row (column + 1) weight) +
        ((x.values.drop 1).map (weight column)).sum := by
  have ran := x.ran
  rw [shape, Expansion.writeItems, if_neg Bool.false_ne_true] at ran
  have others := Expansion.load_writeItems_le (pending_blank blank row (column + 1))
    (fun start low => pending_moved (Nat.lt_of_lt_of_le (Nat.lt_succ_self row) low))
    (fun r => pending_le row (column + 1) weight r column) ran
  rw [values, shape, List.map_cons, List.drop_one, List.tail_cons, List.map_map]
  exact others

/-- A template that stays where it is gives way to the first item, which the walk has passed. -/
private theorem load_first_of_used (x : Expanded source options s row column)
    (blank : ∀ c, weight c .blank = 0) (used : 0 < x.reach) (item : Value) :
    (x.afterFirst item).load (pending row (column + 1) weight) =
      s.load (pending row (column + 1) weight) := by
  have first : (x.afterFirst item).load (pending row (column + 1) weight) + _ = _ :=
    Expansion.load_writeItem_of_not_taken (pending_blank blank row (column + 1))
      (fun taken => Nat.ne_of_gt used (x.taken_iff_pushed.1 taken))
  have passed : ∀ value, pending row (column + 1) weight row column value = 0 :=
    fun value => if_neg (by omega)
  change (x.afterFirst item).load _ + pending row (column + 1) weight row column _ =
    s.load _ + pending row (column + 1) weight row column _ at first
  rwa [passed, passed] at first

/-- A row that is pushed down as a whole is before the walk again. -/
private theorem load_first_of_pushed (x : Expanded source options s row column)
    (blank : ∀ c, weight c .blank = 0) (pushed : x.reach = 0)
    (light : ∀ c < column, ∀ value, weight c value = 0) (item : Value) :
    (x.afterFirst item).load (pending row (column + 1) weight) =
      s.load (pending row column weight) := by
  have first : (x.afterFirst item).load (pending row (column + 1) weight) = _ :=
    Expansion.load_writeItem_of_taken (pending_blank blank row (column + 1))
      (x.taken_iff_pushed.2 pushed)
  have passed : ∀ value, pending row (column + 1) weight row column value = 0 :=
    fun value => if_neg (by omega)
  change (x.afterFirst item).load _ = s.load (fun r => pending row (column + 1) weight
    (Sparse.moved row 1 r)) + pending row (column + 1) weight row column _ at first
  simp only [pending_pushed light] at first
  rwa [passed, Nat.add_zero] at first

/-- Clearing a template that was pushed down takes its weight away. -/
private theorem load_cleared (x : Expanded source options s row column)
    {f : Nat → Nat → CellValue → Nat} (blank : ∀ r c, f r c .blank = 0) (pushed : x.reach = 0) :
    x.after.load f + f (row + x.items.length) column (.text x.template) = x.st.sheet.load f := by
  obtain ⟨cell, held, value⟩ := (Sheet.text?_eq_some_iff ..).1 x.holds
  have arrived : x.st.sheet.cell? (row + x.items.length) column = some cell := by
    have same := x.row_below (r := row) (by omega)
    rw [pushed, Nat.sub_zero] at same
    rw [Sheet.cell?_congr same, held]
  have cleared := Sheet.load_setValue blank x.st.sheet (row + x.items.length) column .blank
  rwa [← x.after_of_pushed pushed, arrived, Option.getD_some, value, blank, Nat.add_zero] at cleared

/-- The load that is left after an expansion. The first item is behind the walk. Where the row of
the template is pushed down its earlier columns come again, so they must not weigh anything. -/
theorem load_after (x : Expanded source options s row column)
    (blank : ∀ c, weight c .blank = 0)
    (light : x.reach = 0 → ∀ c < column, ∀ value, weight c value = 0) :
    x.after.load (pending row (column + 1) weight) + weight column (.text x.template) ≤
      s.load (pending row column weight) + ((x.values.drop 1).map (weight column)).sum := by
  obtain ⟨cell, held, value⟩ := (Sheet.text?_eq_some_iff ..).1 x.holds
  have visited := Sheet.load_pending_succ held blank
  rw [value] at visited
  obtain ⟨item, rest, shape⟩ := List.exists_cons_of_ne_nil x.nonempty
  have others := x.load_rest shape blank
  rcases Nat.eq_zero_or_pos x.reach with pushed | used
  · have first := x.load_first_of_pushed blank pushed (light pushed) item
    have cleared := x.load_cleared (pending_blank blank row (column + 1)) pushed
    have counted : pending row (column + 1) weight (row + x.items.length) column
        (.text x.template) = weight column (.text x.template) :=
      if_pos (.inl (by rw [shape, List.length_cons]; omega))
    omega
  · have first := x.load_first_of_used blank used item
    rw [x.after_of_still used]
    omega

/-- Where no weight is given to what has no content, an expansion takes the weight of its template
away and adds that of what it writes. -/
theorem load_after_eq (x : Expanded source options s row column) (weight : CellValue → Nat)
    (light : ∀ value, value.hasContent = false → weight value = 0) :
    x.after.load (fun _ _ => weight) + weight (.text x.template) =
      s.load (fun _ _ => weight) + (x.values.map weight).sum := by
  obtain ⟨cell, held, value⟩ := (Sheet.text?_eq_some_iff ..).1 x.holds
  obtain ⟨item, rest, shape⟩ := List.exists_cons_of_ne_nil x.nonempty
  have blank : weight .blank = 0 := light .blank rfl
  have ran := x.ran
  rw [shape, Expansion.writeItems, if_neg Bool.false_ne_true] at ran
  have others := Expansion.load_writeItems light (Nat.succ_pos 0) ran
  change _ = (x.afterFirst item).load _ + _ at others
  have all : (x.values.map weight).sum = weight (x.use.valueOf options x.template item) +
      (rest.map fun item => weight (x.use.valueOf options x.template item)).sum := by
    rw [values, shape, List.map_map, List.map_cons, List.sum_cons]
    rfl
  rcases Nat.eq_zero_or_pos x.reach with pushed | used
  · have first : (x.afterFirst item).load (fun _ _ => weight) = _ :=
      Expansion.load_writeItem_of_taken (fun _ _ => blank) (x.taken_iff_pushed.2 pushed)
    have cleared := x.load_cleared (fun _ _ => blank) pushed
    rw [cleared, others, first, all, Nat.add_assoc]
    rfl
  · have first : (x.afterFirst item).load (fun _ _ => weight) + _ = _ :=
      Expansion.load_writeItem_of_not_taken (fun _ _ => blank)
        fun taken => Nat.ne_of_gt used (x.taken_iff_pushed.1 taken)
    change (x.afterFirst item).load _ + weight ((s.cell? row column).getD {}).value =
      s.load _ + weight (x.use.valueOf options x.template item) at first
    rw [held, Option.getD_some, value] at first
    rw [x.after_of_still used, others, all]
    change _ + (rest.map fun item => weight (x.use.valueOf options x.template item)).sum + _ = _
    omega

end Expanded

end Stencil
