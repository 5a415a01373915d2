import Stencil.Fill.SheetExpansion
import Stencil.Proofs.Sheet.Cells

/-! The result of expanding one cell, row by row. Up to the first row whose column is taken the
rows are used where they are; from there on every item gets a row of its own, and all that was
below is moved down. So an expansion is one insertion of rows at one place. -/

namespace Stencil

namespace Expansion

/-- What is written for an item. -/
def cellOf (e : Expansion) (options : FillOptions) (item : Value) : CellValue :=
  let found := (itemValue? item e.property).getD (.null, none)
  e.cellFor options found.1 found.2

/-- A row with nothing but the styles of the template row. -/
def styledRow (e : Expansion) : Row :=
  e.rowStyles.foldl
    (fun row (column, style) => row.update column {} fun cell => { cell with style }) .empty

/-- The row of an item: the row that was there if there was one, else a new one, with the value
in the column of the expansion. -/
def line (e : Expansion) (old : Option Row) (value : CellValue) : Row :=
  let styled :=
    match old, e.anchorStyle with
    | none, _ => e.styledRow
    | some row, none => row
    | some row, some style => row.update e.column {} fun cell => { cell with style }
  styled.update e.column {} fun cell => { cell with value }

/-- How many of `count` items find rows that can be used where they are. -/
def reach (e : Expansion) (s : Sheet) (count : Nat) : Nat :=
  (List.range count).findIdx fun offset => e.rowState s offset = .taken

theorem reach_le (e : Expansion) (s : Sheet) (count : Nat) : e.reach s count ≤ count :=
  List.findIdx_le_length.trans_eq List.length_range

theorem lt_reach_iff {e : Expansion} {s : Sheet} {count offset : Nat} :
    offset < e.reach s count ↔ offset < count ∧ ∀ i ≤ offset, e.rowState s i ≠ .taken := by
  simp only [reach, List.lt_findIdx_iff, List.length_range, List.getElem_range, exists_prop,
    decide_eq_false_iff_not]

theorem not_taken_of_lt_reach {e : Expansion} {s : Sheet} {count offset : Nat}
    (low : offset < e.reach s count) : e.rowState s offset ≠ .taken :=
  (lt_reach_iff.1 low).2 offset (Nat.le_refl _)

theorem taken_at_reach {e : Expansion} {s : Sheet} {count : Nat}
    (low : e.reach s count < count) : e.rowState s (e.reach s count) = .taken := by
  have bound : (List.range count).findIdx (fun offset => e.rowState s offset = .taken) <
      (List.range count).length := by
    rw [List.length_range]
    exact low
  have first := List.findIdx_getElem (w := bound)
  simp only [List.getElem_range, decide_eq_true_eq] at first
  exact first

theorem rowState_eq (e : Expansion) (s : Sheet) (offset : Nat) :
    e.rowState s offset =
      if !s.hasRow (e.anchor + offset) then .missing
      else if s.isMerged (e.anchor + offset) e.column
          || (0 < offset && (s.value? (e.anchor + offset) e.column).any CellValue.hasContent) then
        .taken
      else .free := rfl

theorem prepare_eq (e : Expansion) (offset : Nat) (st : Emission) :
    e.prepare offset st =
      match e.rowState st.sheet offset with
      | .missing => { st with sheet := e.freshRow st.sheet (e.anchor + offset) }
      | .taken =>
          { st with
            sheet :=
              e.freshRow (st.sheet.shiftRows (e.anchor + offset) 1) (e.anchor + offset)
            templateRow :=
              if e.anchor + offset ≤ st.templateRow then st.templateRow + 1
              else st.templateRow }
      | .free =>
          match e.anchorStyle with
          | some style => { st with sheet := st.sheet.setStyle (e.anchor + offset) e.column style }
          | none => st := rfl

theorem rowState_eq_taken_iff (e : Expansion) (s : Sheet) (offset : Nat) :
    e.rowState s offset = .taken ↔
      s.hasRow (e.anchor + offset) = true ∧
        (s.isMerged (e.anchor + offset) e.column = true ∨
          0 < offset ∧
            (s.value? (e.anchor + offset) e.column).any CellValue.hasContent = true) := by
  cases present : s.hasRow (e.anchor + offset) with
  | false => simp [rowState_eq, present]
  | true =>
      simp only [rowState_eq, present, Bool.not_true, Bool.false_eq_true, if_false, Bool.or_eq_true,
        Bool.and_eq_true, decide_eq_true_eq, true_and]
      split <;> simp_all

theorem absent_of_missing {e : Expansion} {s : Sheet} {offset : Nat}
    (missing : e.rowState s offset = .missing) : s.rows.get? (e.anchor + offset) = none := by
  rw [rowState_eq] at missing
  cases present : s.rows.get? (e.anchor + offset) with
  | none => rfl
  | some cells =>
      simp only [Sheet.hasRow_eq_isSome, present, Option.isSome_some, Bool.not_true,
        Bool.false_eq_true, if_false] at missing
      split at missing <;> cases missing

/-! ### One item -/

private theorem row_foldl_setStyle (styles : List (Nat × UInt32)) (s : Sheet) (target r : Nat)
    {row : Row} (present : s.rows.get? target = some row) :
    (styles.foldl (fun s (column, style) => s.setStyle target column style) s).rows.get? r =
      if r = target then
        some (styles.foldl
          (fun row (column, style) => row.update column {} fun cell => { cell with style }) row)
      else s.rows.get? r := by
  induction styles generalizing s row with
  | nil =>
      by_cases same : r = target
      · rw [if_pos same, same]
        exact present
      · rw [if_neg same]
        rfl
  | cons head rest ih =>
      obtain ⟨column, style⟩ := head
      have updated : (s.setStyle target column style).rows.get? target =
          some (row.update column {} fun cell => { cell with style }) := by
        rw [Sheet.setStyle, Sheet.row_updateCell, if_pos rfl, present]
        rfl
      rw [List.foldl_cons, ih _ updated, List.foldl_cons]
      by_cases same : r = target
      · rw [if_pos same, if_pos same]
      · rw [if_neg same, if_neg same, Sheet.setStyle, Sheet.row_updateCell, if_neg same]

/-- A fresh row keeps what the row that is created keeps, and each cell that is styled. -/
theorem freshRow_keeps (e : Expansion) (Keeps : Sheet → Prop) {s : Sheet} {target : Nat}
    (created : Keeps (s.createRow target))
    (styled : ∀ u column style, Keeps u → Keeps (u.setStyle target column style)) :
    Keeps (e.freshRow s target) :=
  List.foldlRecOn _ _ created fun u kept entry _ => styled u entry.1 entry.2 kept

theorem row_freshRow (e : Expansion) {s : Sheet} {target : Nat} (r : Nat)
    (absent : s.rows.get? target = none) :
    (e.freshRow s target).rows.get? r =
      if r = target then some e.styledRow else s.rows.get? r := by
  have created : (s.createRow target).rows.get? target = some .empty := by
    rw [Sheet.row_createRow, if_pos rfl, absent]
    rfl
  rw [freshRow, row_foldl_setStyle _ _ _ _ created, Sheet.row_createRow]
  by_cases same : r = target
  · rw [if_pos same, if_pos same]
    rfl
  · rw [if_neg same, if_neg same, if_neg same]

theorem merged_freshRow (e : Expansion) (s : Sheet) (target : Nat) :
    (e.freshRow s target).merged = s.merged :=
  e.freshRow_keeps (fun u => u.merged = s.merged) rfl fun _ _ _ same => same

variable {e : Expansion} {options : FillOptions} {offset : Nat} {item : Value} {st : Emission}

/-- Where the row is not taken, it is filled in place. -/
theorem row_writeItem_of_not_taken (usable : e.rowState st.sheet offset ≠ .taken) (r : Nat) :
    (e.writeItem options offset item st).sheet.rows.get? r =
      if r = e.anchor + offset then
        some (e.line (st.sheet.rows.get? (e.anchor + offset)) (e.cellOf options item))
      else st.sheet.rows.get? r := by
  change ((e.prepare offset st).sheet.setValue (e.anchor + offset) e.column
    (e.cellOf options item)).rows.get? r = _
  rw [Sheet.setValue, Sheet.row_updateCell]
  cases state : e.rowState st.sheet offset with
  | taken => exact absurd state usable
  | missing =>
      have absent := absent_of_missing state
      simp only [prepare_eq, state, row_freshRow e _ absent, absent, line, if_true,
        Option.getD_some]
      split <;> rfl
  | free =>
      obtain ⟨row, present⟩ : ∃ row, st.sheet.rows.get? (e.anchor + offset) = some row := by
        rw [rowState_eq] at state
        cases present : st.sheet.rows.get? (e.anchor + offset) with
        | none =>
            simp only [Sheet.hasRow_eq_isSome, present, Option.isSome_none, Bool.not_false,
              if_true] at state
            cases state
        | some row => exact ⟨row, rfl⟩
      cases style : e.anchorStyle with
      | none =>
          simp only [prepare_eq, state, style, present, line, Option.getD_some]
      | some style' =>
          simp only [prepare_eq, state, style, present, line, Sheet.setStyle, Sheet.row_updateCell,
            if_true, Option.getD_some]
          split <;> rfl

/-- A row that is taken, and all rows below it, make room for a new one. -/
theorem row_writeItem_of_taken (taken : e.rowState st.sheet offset = .taken) (r : Nat) :
    (e.writeItem options offset item st).sheet.rows.get? r =
      if r < e.anchor + offset then st.sheet.rows.get? r
      else if r = e.anchor + offset then some (e.line none (e.cellOf options item))
      else st.sheet.rows.get? (r - 1) := by
  change ((e.prepare offset st).sheet.setValue (e.anchor + offset) e.column
    (e.cellOf options item)).rows.get? r = _
  have absent : (st.sheet.shiftRows (e.anchor + offset) 1).rows.get? (e.anchor + offset) =
      none := by
    rw [Sheet.row_shiftRows, if_neg (by omega), if_pos (by omega)]
  rw [Sheet.setValue, Sheet.row_updateCell]
  simp only [prepare_eq, taken, row_freshRow e _ absent, Sheet.row_shiftRows, if_true,
    Option.getD_some]
  by_cases low : r < e.anchor + offset
  · rw [if_neg (by omega), if_neg (by omega), if_pos low, if_pos low]
  · by_cases same : r = e.anchor + offset
    · rw [if_pos same, if_neg low, if_pos same]
      rfl
    · rw [if_neg same, if_neg same, if_neg low, if_neg (by omega), if_neg low, if_neg same]

theorem merged_writeItem (e : Expansion) (options : FillOptions) (offset : Nat) (item : Value)
    (st : Emission) :
    (e.writeItem options offset item st).sheet.merged =
      if e.rowState st.sheet offset = .taken then
        st.sheet.merged.map (·.shift (e.anchor + offset) 1)
      else st.sheet.merged := by
  show (e.prepare offset st).sheet.merged = _
  unfold prepare
  cases e.rowState st.sheet offset with
  | missing => exact merged_freshRow ..
  | taken => exact merged_freshRow ..
  | free => cases e.anchorStyle <;> rfl

theorem templateRow_writeItem (e : Expansion) (options : FillOptions) (offset : Nat) (item : Value)
    (st : Emission) :
    (e.writeItem options offset item st).templateRow =
      if e.rowState st.sheet offset = .taken ∧ e.anchor + offset ≤ st.templateRow then
        st.templateRow + 1
      else st.templateRow := by
  show (e.prepare offset st).templateRow = _
  rw [prepare_eq]
  cases e.rowState st.sheet offset with
  | missing => rfl
  | taken => simp
  | free => cases e.anchorStyle <;> rfl

/-! ### All items -/

/-- What a sheet has become when some values are written, of which the first `reach` found rows
to use. -/
structure Progress (e : Expansion) (s : Sheet) (reach : Nat) (values : List CellValue)
    (st : Emission) : Prop where
  above : ∀ r < e.anchor, st.sheet.rows.get? r = s.rows.get? r
  written : ∀ i value, values[i]? = some value →
    st.sheet.rows.get? (e.anchor + i) =
      some (e.line (if i < reach then s.rows.get? (e.anchor + i) else none) value)
  below : ∀ r, e.anchor + min reach values.length ≤ r →
    st.sheet.rows.get? (r + (values.length - reach)) = s.rows.get? r
  merged : st.sheet.merged = (s.shiftRows (e.anchor + reach) (values.length - reach)).merged
  template : st.templateRow = if reach = 0 then e.anchor + values.length else e.anchor

theorem progress_start (e : Expansion) (s : Sheet) (reach : Nat) :
    e.Progress s reach [] { sheet := s, templateRow := e.anchor } where
  above _ _ := rfl
  written i value found := by cases found
  below r _ := by rw [List.length_nil, Nat.zero_sub, Nat.add_zero]
  merged := by rw [List.length_nil, Nat.zero_sub, Sheet.shiftRows_zero]
  template := by rw [List.length_nil, Nat.add_zero, ite_self]

/-- The row of the next item stands as it did before the expansion, and once a row was taken the
rows of all later items are. -/
theorem Progress.taken_iff {s : Sheet} {count : Nat} {values : List CellValue}
    (progress : e.Progress s (e.reach s count) values st) (more : values.length < count) :
    e.rowState st.sheet values.length = .taken ↔ e.reach s count ≤ values.length := by
  constructor
  · intro taken
    by_contra early
    have low : values.length < e.reach s count := Nat.lt_of_not_le early
    have noShift : values.length - e.reach s count = 0 := by omega
    have sameRow := progress.below (e.anchor + values.length) (by omega)
    rw [noShift, Nat.add_zero] at sameRow
    have sameMerged := progress.merged
    rw [noShift, Sheet.shiftRows_zero] at sameMerged
    apply not_taken_of_lt_reach low
    rw [rowState_eq_taken_iff] at taken ⊢
    rwa [Sheet.hasRow_eq_isSome, sameRow, Sheet.isMerged_congr sameMerged, Sheet.value?,
      Sheet.cell?_congr sameRow] at taken
  · intro late
    have place : e.anchor + e.reach s count + (values.length - e.reach s count) =
        e.anchor + values.length := by omega
    have sameRow := progress.below (e.anchor + e.reach s count) (by omega)
    rw [place] at sameRow
    have sameMerged := Sheet.isMerged_shiftRows s (e.anchor + e.reach s count)
      (values.length - e.reach s count) (e.anchor + e.reach s count) e.column
    rw [Sparse.moved_of_le (Nat.le_refl _), place] at sameMerged
    have taken := taken_at_reach (Nat.lt_of_le_of_lt late more)
    rw [rowState_eq_taken_iff] at taken ⊢
    obtain ⟨present, merged | ⟨positive, content⟩⟩ := taken
    · refine ⟨?_, .inl ?_⟩
      · rwa [Sheet.hasRow_eq_isSome, sameRow]
      · rwa [Sheet.isMerged_congr progress.merged, sameMerged]
    · refine ⟨?_, .inr ⟨Nat.lt_of_lt_of_le positive late, ?_⟩⟩
      · rwa [Sheet.hasRow_eq_isSome, sameRow]
      · rwa [Sheet.value?, Sheet.cell?_congr sameRow]

private theorem getElem?_concat {values : List CellValue} {i : Nat} {value last : CellValue}
    (found : (values ++ [last])[i]? = some value) :
    values[i]? = some value ∧ i < values.length ∨ i = values.length ∧ value = last := by
  rw [List.getElem?_append] at found
  by_cases earlier : i < values.length
  · rw [if_pos earlier] at found
    exact .inl ⟨found, earlier⟩
  · rw [if_neg earlier, List.getElem?_singleton] at found
    split at found
    · cases found
      exact .inr ⟨by omega, rfl⟩
    · cases found

private theorem Progress.stepInPlace {s : Sheet} {count : Nat} {values : List CellValue}
    (progress : e.Progress s (e.reach s count) values st)
    (usable : e.rowState st.sheet values.length ≠ .taken)
    (low : values.length < e.reach s count) (options : FillOptions) (item : Value) :
    e.Progress s (e.reach s count) (values ++ [e.cellOf options item])
      (e.writeItem options values.length item st) := by
  have noShift : values.length - e.reach s count = 0 := by omega
  have noShift' : (values ++ [e.cellOf options item]).length - e.reach s count = 0 := by
    rw [List.length_append, List.length_singleton]
    omega
  have sameBelow : ∀ r, e.anchor + values.length ≤ r →
      st.sheet.rows.get? r = s.rows.get? r := by
    intro r bound
    have same := progress.below r (by omega)
    rwa [noShift, Nat.add_zero] at same
  constructor
  · intro r above
    rw [row_writeItem_of_not_taken usable, if_neg (by omega), progress.above r above]
  · intro i value found
    rw [row_writeItem_of_not_taken usable]
    obtain ⟨found, earlier⟩ | ⟨rfl, rfl⟩ := getElem?_concat found
    · rw [if_neg (by omega), progress.written i value found]
    · rw [if_pos rfl, if_pos low, sameBelow _ (Nat.le_refl _)]
  · intro r bound
    rw [List.length_append, List.length_singleton] at bound
    rw [noShift', Nat.add_zero, row_writeItem_of_not_taken usable, if_neg (by omega),
      sameBelow r (by omega)]
  · rw [merged_writeItem, if_neg usable, progress.merged, noShift, noShift']
  · have kept : e.reach s count ≠ 0 := by omega
    rw [templateRow_writeItem, if_neg fun both => usable both.1, progress.template,
      if_neg kept, if_neg kept]

private theorem Progress.stepInserting {s : Sheet} {count : Nat} {values : List CellValue}
    (progress : e.Progress s (e.reach s count) values st)
    (taken : e.rowState st.sheet values.length = .taken)
    (late : e.reach s count ≤ values.length) (options : FillOptions) (item : Value) :
    e.Progress s (e.reach s count) (values ++ [e.cellOf options item])
      (e.writeItem options values.length item st) := by
  have inserted : (values ++ [e.cellOf options item]).length - e.reach s count =
      values.length - e.reach s count + 1 := by
    rw [List.length_append, List.length_singleton]
    omega
  constructor
  · intro r above
    rw [row_writeItem_of_taken taken, if_pos (by omega), progress.above r above]
  · intro i value found
    rw [row_writeItem_of_taken taken]
    obtain ⟨found, earlier⟩ | ⟨rfl, rfl⟩ := getElem?_concat found
    · rw [if_pos (by omega), progress.written i value found]
    · rw [if_neg (by omega), if_pos rfl, if_neg (by omega)]
  · intro r low
    rw [List.length_append, List.length_singleton] at low
    rw [inserted, row_writeItem_of_taken taken, if_neg (by omega), if_neg (by omega),
      ← Nat.add_assoc, Nat.add_sub_cancel, progress.below r (by omega)]
  · have place : e.anchor + e.reach s count + (values.length - e.reach s count) =
        e.anchor + values.length := by omega
    have twice := Sheet.shiftRows_shiftRows s (e.anchor + e.reach s count)
      (values.length - e.reach s count) 1
    rw [place] at twice
    rw [merged_writeItem, if_pos taken, progress.merged, inserted]
    exact twice
  · rw [templateRow_writeItem, progress.template, List.length_append, List.length_singleton]
    by_cases displaced : e.reach s count = 0
    · rw [if_pos displaced, if_pos ⟨taken, Nat.le_refl _⟩, if_pos displaced, Nat.add_assoc]
    · rw [if_neg displaced, if_neg displaced, if_neg fun both => by omega]

theorem Progress.step {s : Sheet} {count : Nat} {values : List CellValue}
    (progress : e.Progress s (e.reach s count) values st) (more : values.length < count)
    (options : FillOptions) (item : Value) :
    e.Progress s (e.reach s count) (values ++ [e.cellOf options item])
      (e.writeItem options values.length item st) := by
  have state := progress.taken_iff more
  by_cases late : e.reach s count ≤ values.length
  · exact progress.stepInserting (state.2 late) late options item
  · exact progress.stepInPlace (fun taken => late (state.1 taken)) (Nat.lt_of_not_le late)
      options item

/-- Writing goes on to the last item, and every value gets its row. -/
theorem Progress.run {s : Sheet} {count : Nat} {values : List CellValue}
    (progress : e.Progress s (e.reach s count) values st) (options : FillOptions)
    (items : List Value) (fits : values.length + items.length ≤ count) :
    ∃ last, e.writeItems options false values.length items st = .done last () ∧
      e.Progress s (e.reach s count) (values ++ items.map (e.cellOf options)) last := by
  induction items generalizing values st with
  | nil =>
      refine ⟨st, rfl, ?_⟩
      rwa [List.map_nil, List.append_nil]
  | cons item rest ih =>
      rw [List.length_cons] at fits
      have next := progress.step (by omega) options item
      have room : (values ++ [e.cellOf options item]).length + rest.length ≤ count := by
        rw [List.length_append, List.length_singleton]
        omega
      obtain ⟨last, ran, progressed⟩ := ih next room
      rw [List.length_append, List.length_singleton] at ran
      refine ⟨last, ran, ?_⟩
      rwa [List.map_cons, List.append_cons]

end Expansion

end Stencil
