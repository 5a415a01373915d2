import Stencil.Fill.Workbook
import Stencil.Proofs.Placeholder.Scan
import Stencil.Proofs.Sheet.Room

/-! A visit of the collection pass either leaves the sheet as it is or expands the cell it is at.
Then all content but the template is kept, in rows that may have moved down. -/

namespace Stencil

/-- What expanding a template writes for an item. -/
def CollectionUse.valueOf (use : CollectionUse) (options : FillOptions) (template : String)
    (item : Value) : CellValue :=
  let found := (itemValue? item use.property).getD (.null, none)
  if (classify .collection template).isSinglePlaceholder then
    .ofValue options found.2 found.1
  else .text (replaceFirst .collection template (found.1.render options found.2))

/-- The items that a text asks for. There are none where it asks for nothing, or for something that
is no sequence. -/
def Source.asked? (source : Source) (text : String) : Option (List Value) :=
  (firstCollection? text).bind fun use => source.items? use.collection

/-- What expanding a text writes, one value for each item. -/
def Source.written (source : Source) (options : FillOptions) (text : String) : List CellValue :=
  (firstCollection? text).elim [] fun use =>
    ((source.items? use.collection).getD []).map (use.valueOf options text)

theorem Source.asked?_of_none {source : Source} {text : String}
    (none : firstCollection? text = none) : source.asked? text = Option.none := by
  rw [asked?, none, Option.bind_none]

theorem Source.asked?_of_first {source : Source} {text : String} {use : CollectionUse}
    (first : firstCollection? text = some use) :
    source.asked? text = source.items? use.collection := by
  rw [asked?, first, Option.bind_some]

theorem Source.written_of_none {source : Source} {options : FillOptions} {text : String}
    (none : firstCollection? text = none) : source.written options text = [] := by
  rw [written, none, Option.elim_none]

theorem Source.written_of_first {source : Source} {options : FillOptions} {text : String}
    {use : CollectionUse} (first : firstCollection? text = some use) :
    source.written options text =
      ((source.items? use.collection).getD []).map (use.valueOf options text) := by
  rw [written, first, Option.elim_some]

theorem Source.written_of_absent {source : Source} {options : FillOptions} {text : String}
    {use : CollectionUse} (first : firstCollection? text = some use)
    (absent : source.items? use.collection = none) : source.written options text = [] := by
  rw [written_of_first first, absent, Option.getD_none, List.map_nil]

theorem Source.exists_first_of_written {source : Source} {options : FillOptions} {text : String}
    {value : CellValue} (written : value ∈ source.written options text) :
    ∃ use, firstCollection? text = some use := by
  cases first : firstCollection? text with
  | none =>
      rw [written_of_none first] at written
      cases written
  | some use => exact ⟨use, rfl⟩

/-- A text that writes nothing asks for nothing that is there, or for an empty sequence. -/
theorem Source.asked?_of_written {source : Source} {options : FillOptions} {text : String}
    (nothing : source.written options text = []) :
    source.asked? text = none ∨ source.asked? text = some [] := by
  cases first : firstCollection? text with
  | none => exact .inl (asked?_of_none first)
  | some use =>
      rw [written_of_first first, List.map_eq_nil_iff] at nothing
      rw [asked?_of_first first]
      cases found : source.items? use.collection with
      | none => exact .inl rfl
      | some items =>
          rw [found, Option.getD_some] at nothing
          exact .inr (congrArg some nothing)

/-- A value that is written as text is written as it is rendered. -/
theorem CellValue.eq_render_of_ofValue {options : FillOptions} {format : Option String}
    {value : Value} {text : String} (written : ofValue options format value = .text text) :
    text = value.render options format := by
  cases value with
  | text inner =>
      cases written
      rw [Value.render]
  | sequence items =>
      cases written
      rfl
  | mapping entries =>
      cases written
      rfl
  | record _ _ _ _ _ =>
      cases written
      rfl
  | _ => cases written

/-- A text that is one placeholder writes nothing but its items or their properties. -/
theorem CollectionUse.exists_of_valueOf {use : CollectionUse} {options : FillOptions}
    {template text : String} {item : Value}
    (single : (classify .collection template).isSinglePlaceholder = true)
    (written : use.valueOf options template item = .text text) :
    ∃ found, itemValue? item use.property = some found ∧
      text = found.1.render options found.2 := by
  rw [valueOf, if_pos single] at written
  cases found : itemValue? item use.property with
  | none =>
      rw [found] at written
      cases written
  | some value =>
      rw [found] at written
      exact ⟨value, rfl, CellValue.eq_render_of_ofValue written⟩

/-- What is written for a single placeholder is an item that its path leads to, or a property. -/
theorem Source.exists_of_written {source : Source} {options : FillOptions} {text later : String}
    (single : (classify .collection text).isSinglePlaceholder = true)
    (written : .text later ∈ source.written options text) :
    ∃ use items item found, firstCollection? text = some use ∧
      source.items? use.collection = some items ∧ item ∈ items ∧
      itemValue? item use.property = some found ∧
      later = found.1.render options found.2 := by
  obtain ⟨use, first⟩ := exists_first_of_written written
  cases resolves : source.items? use.collection with
  | none =>
      rw [written_of_absent first resolves] at written
      cases written
  | some items =>
      rw [written_of_first first, resolves, Option.getD_some] at written
      obtain ⟨item, member, value⟩ := List.mem_map.1 written
      obtain ⟨found, property, same⟩ := use.exists_of_valueOf single value
      exact ⟨use, items, item, found, first, resolves, member, property, same⟩

namespace Expansion

private theorem blank_foldl_style (styles : List (Nat × UInt32)) (column : Nat) {row : Row}
    (blank : ((row.get? column).getD {}).value = .blank) :
    (((styles.foldl (fun row (c, style) =>
      row.update c {} fun cell => { cell with style }) row).get? column).getD {}).value =
        .blank := by
  induction styles generalizing row with
  | nil => exact blank
  | cons head rest ih =>
      obtain ⟨c, style⟩ := head
      apply ih
      rw [Sparse.get?_update]
      by_cases same : column = c
      · rw [if_pos same, ← same]
        exact blank
      · rw [if_neg same]
        exact blank

theorem styledRow_blank (e : Expansion) (column : Nat) :
    ((e.styledRow.get? column).getD {}).value = .blank :=
  blank_foldl_style e.rowStyles column rfl

private theorem get?_foldl_style (style? : Nat → Option UInt32) (columns : List Nat) (row : Row)
    (column : Nat) :
    ((columns.filterMap fun c => (style? c).map (c, ·)).foldl
      (fun row (c, style) => row.update c {} fun cell => { cell with style }) row).get? column =
      if column ∈ columns then
        ((style? column).map fun style =>
          { (row.get? column).getD {} with style }).or (row.get? column)
      else row.get? column := by
  induction columns generalizing row with
  | nil => rw [if_neg List.not_mem_nil, List.filterMap_nil, List.foldl_nil]
  | cons c rest ih =>
      cases style : style? c with
      | none =>
          rw [List.filterMap_cons_none (by rw [style]; rfl), ih]
          by_cases same : column = c
          · rw [same, style, if_pos (List.mem_cons_self ..)]
            exact ite_self _
          · simp only [List.mem_cons, same, false_or]
      | some value =>
          rw [List.filterMap_cons_some (by rw [style]; rfl), List.foldl_cons, ih]
          rw [Sparse.get?_update]
          by_cases same : column = c
          · rw [same, style, if_pos rfl, if_pos (List.mem_cons_self ..)]
            exact ite_self _
          · simp only [List.mem_cons, same, false_or, if_false]

/-- The cell of an item has the style of the template cell, whether its row was there or not. -/
theorem line_styled {e : Expansion} {style : UInt32} (anchor : e.anchorStyle = some style)
    (fresh : e.styledRow.get? e.column = some { style }) (old : Option Row) (value : CellValue) :
    (e.line old value).get? e.column = some { value, style } := by
  cases old with
  | none => simp only [line, Sparse.get?_update, if_true, fresh, Option.getD_some]
  | some row => simp only [line, anchor, Sparse.get?_update, if_true, Option.getD_some]

theorem value_line (e : Expansion) (old : Option Row) (value : CellValue) :
    ((e.line old value).get? e.column).map Cell.value = some value := by
  unfold line
  rw [Sparse.get?_update, if_pos rfl]
  rfl

/-- A row that was there keeps the cells of all other columns. -/
theorem line_of_ne (e : Expansion) (row : Row) (value : CellValue) {column : Nat}
    (apart : column ≠ e.column) : (e.line (some row) value).get? column = row.get? column := by
  cases style : e.anchorStyle <;> simp [line, style, Sparse.get?_update, apart]

/-- Apart from the cell of its item a new row is as it was made. -/
theorem line_none_of_ne (e : Expansion) (value : CellValue) {column : Nat}
    (apart : column ≠ e.column) :
    (e.line none value).get? column = e.styledRow.get? column := by
  rw [line, Sparse.get?_update, if_neg apart]

theorem name_freshRow (e : Expansion) (s : Sheet) (target : Nat) :
    (e.freshRow s target).name = s.name :=
  e.freshRow_keeps (fun u => u.name = s.name) rfl fun _ _ _ same => same

theorem name_writeItems {e : Expansion} {options : FillOptions} {items : List Value}
    {offset : Nat} {st last : Emission}
    (ran : e.writeItems options false offset items st = .done last ()) :
    last.sheet.name = st.sheet.name := by
  induction items generalizing offset st with
  | nil =>
      cases ran
      rfl
  | cons item rest ih =>
      rw [writeItems, if_neg Bool.false_ne_true] at ran
      rw [ih ran]
      show (e.prepare offset st).sheet.name = st.sheet.name
      unfold prepare
      cases e.rowState st.sheet offset with
      | missing => exact name_freshRow ..
      | taken => exact name_freshRow ..
      | free => cases e.anchorStyle <;> rfl

private theorem emitted_prepare (e : Expansion) (offset : Nat) (st : Emission) (c : Counting) :
    (e.prepare offset st c).emitted = st.emitted := by
  unfold prepare
  cases e.rowState st.sheet offset c with
  | missing => rfl
  | taken => rfl
  | free => cases e.anchorStyle <;> rfl

private theorem missing_prepare (e : Expansion) (offset : Nat) (st : Emission) (c : Counting) :
    (e.prepare offset st c).missingProperty = st.missingProperty := by
  unfold prepare
  cases e.rowState st.sheet offset c with
  | missing => rfl
  | taken => rfl
  | free => cases e.anchorStyle <;> rfl

theorem writeItems_done (e : Expansion) (options : FillOptions) (offset : Nat)
    (items : List Value) (st : Emission) (c : Counting) :
    ∃ last, e.writeItems options false offset items st c = .done last () := by
  induction items generalizing offset st with
  | nil => exact ⟨st, rfl⟩
  | cons item rest ih => exact ih (offset + 1) (e.writeItem options offset item st c)

/-- Every item is counted, and those without the wanted property are noticed. -/
theorem counts_writeItems {e : Expansion} {options : FillOptions} {items : List Value}
    {offset : Nat} {st last : Emission} {c : Counting}
    (ran : e.writeItems options false offset items st c = .done last ()) :
    last.emitted = st.emitted + items.length ∧
      last.missingProperty =
        (st.missingProperty || items.any fun item => (itemValue? item e.property).isNone) := by
  induction items generalizing offset st with
  | nil =>
      cases ran
      simp
  | cons item rest ih =>
      rw [writeItems, if_neg Bool.false_ne_true] at ran
      obtain ⟨count, missing⟩ := ih ran
      have one : (e.writeItem options offset item st c).emitted = st.emitted + 1 := by
        rw [← e.emitted_prepare offset st c]
        rfl
      have noticed : (e.writeItem options offset item st c).missingProperty =
          (st.missingProperty || (itemValue? item e.property).isNone) := by
        rw [← e.missing_prepare offset st c]
        rfl
      rw [one] at count
      rw [noticed] at missing
      refine ⟨by rw [count, List.length_cons]; omega, ?_⟩
      rw [missing, List.any_cons, Bool.or_assoc]

end Expansion

namespace Sheet

/-- What is reported of expanding the sequence of a collection placeholder. -/
def expansionOutcome (use : CollectionUse) (items : List Value) : Outcome where
  expanded := 1
  rowsEmitted := items.length
  unresolved :=
    if items.any fun item => (itemValue? item use.property).isNone then [use.sourceText] else []

/-- What a visit reports of a cell. -/
def collectionOutcome (source : Source) (s : Sheet) (row column : Nat) : Outcome :=
  ((s.text? row column).bind firstCollection?).elim {} fun use =>
    (source.items? use.collection).elim { unresolved := [use.sourceText] } (expansionOutcome use)

/-- The report does not depend on how the rows are numbered. -/
theorem expandAt_outcome (source : Source) (options : FillOptions) (s : Sheet) (row column : Nat)
    (c : Counting) :
    ∃ next, s.expandAt source options false row column c =
      .done next (s.collectionOutcome source row column) := by
  unfold expandAt collectionOutcome
  cases s.text? row column with
  | none => exact ⟨s, rfl⟩
  | some template =>
      dsimp only [Option.bind_some]
      cases firstCollection? template with
      | none => exact ⟨s, rfl⟩
      | some use =>
          dsimp only [Option.elim_some]
          cases source.items? use.collection with
          | none => exact ⟨s, rfl⟩
          | some items =>
              dsimp only [Option.elim_some]
              obtain ⟨last, ran⟩ := Expansion.writeItems_done
                { template
                  native := (classify .collection template).isSinglePlaceholder
                  property := use.property
                  anchor := row
                  column
                  rowStyles := s.rowStyles row c
                  anchorStyle := s.style? row column }
                options 0 items { sheet := s, templateRow := row } c
              obtain ⟨count, missing⟩ := Expansion.counts_writeItems ran
              rw [ran, Attempt.done]
              dsimp only
              rw [count, missing, Nat.zero_add, Bool.false_or]
              exact ⟨_, rfl⟩

theorem visitCollections_outcome (source : Source) (options : FillOptions) (s : Sheet)
    (row column : Nat) (c : Counting) :
    ∃ next, visitCollections source options false c s row column =
      .done next (s.collectionOutcome source row column) := by
  unfold visitCollections
  cases found : s.hasCollectionAt row column with
  | true => exact s.expandAt_outcome source options row column c
  | false =>
      refine ⟨s, ?_⟩
      unfold hasCollectionAt at found
      unfold collectionOutcome
      cases held : s.text? row column with
      | none => rfl
      | some text =>
          rw [held, Option.any_some, hasPlaceholder_collection, Option.isSome_eq_false_iff,
            Option.isNone_iff_eq_none] at found
          rw [Option.bind_some, found]
          rfl

/-- The expansion of the collection placeholder `use` in the cell `template`. -/
def expansion (s : Sheet) (template : String) (use : CollectionUse) (row column : Nat)
    (counting : Counting := .endless) : Expansion where
  template
  native := (classify .collection template).isSinglePlaceholder
  property := use.property
  anchor := row
  column
  rowStyles := s.rowStyles row counting
  anchorStyle := s.style? row column

/-- A new row has a blank cell for each cell of the template row, in the style of it. -/
theorem get?_styledRow (s : Sheet) (template : String) (use : CollectionUse)
    (row column c : Nat) :
    (s.expansion template use row column).styledRow.get? c =
      (s.cell? row c).map fun cell => { style := cell.style } := by
  have cells := Expansion.get?_foldl_style (s.style? row) (s.columns row) .empty c
  change (s.expansion template use row column).styledRow.get? c = _ at cells
  rw [cells, style?]
  cases held : s.cell? row c with
  | none => exact ite_self _
  | some cell => exact if_pos (mem_columns held)

theorem expandAt_of_done {source : Source} {options : FillOptions} {s : Sheet} {row column : Nat}
    {template : String} {use : CollectionUse} {items : List Value} {st : Emission}
    {counting : Counting} (holds : s.text? row column = some template)
    (first : firstCollection? template = some use)
    (found : source.items? use.collection = some items)
    (ran : (s.expansion template use row column counting).writeItems options false 0 items
      { sheet := s, templateRow := row } counting = .done st ()) :
    expandAt source options false s row column counting =
      .done ((s.expansion template use row column counting).clearTemplate st)
        (expansionOutcome use items) := by
  obtain ⟨count, missing⟩ := Expansion.counts_writeItems ran
  have count : st.emitted = items.length := count.trans (Nat.zero_add _)
  have missing : st.missingProperty =
      items.any fun item => (itemValue? item use.property).isNone :=
    missing.trans (Bool.false_or _)
  rw [expansionOutcome, ← count, ← missing]
  unfold expansion at ran
  simp only [expandAt, holds, first, found, ran, Attempt.done]
  rfl

end Sheet

/-- Coming down a column, an expansion is not stopped before the row at a place: no existing row
above that place is merged in the column or, below the first row, holds something there. -/
def Sheet.Passable (s : Sheet) (row column place : Nat) : Prop :=
  ∀ i < place, s.hasRow (row + i) = true →
    s.isMerged (row + i) column = false ∧
      (0 < i → (s.value? (row + i) column).any CellValue.hasContent = false)

/-- A cell whose placeholder has items, and what writing them leads to. -/
structure Expanded (source : Source) (options : FillOptions) (s : Sheet) (row column : Nat)
    (counting : Counting := .endless) where
  template : String
  use : CollectionUse
  items : List Value
  st : Emission
  holds : s.text? row column = some template
  first : firstCollection? template = some use
  found : source.items? use.collection = some items
  nonempty : items ≠ []
  ran : (s.expansion template use row column counting).writeItems options false 0 items
    { sheet := s, templateRow := row } = .done st ()
  progress : (s.expansion template use row column counting).Progress s
    ((s.expansion template use row column counting).reach s items.length)
    (items.map (use.valueOf options template)) st

namespace Expanded

variable {source : Source} {options : FillOptions} {s : Sheet} {row column : Nat}
  {counting : Counting}

/-- How many items find rows that can be used where they are. -/
def reach (x : Expanded source options s row column counting) : Nat :=
  (s.expansion x.template x.use row column counting).reach s x.items.length

/-- The values that are written, from the row of the template downwards. -/
def values (x : Expanded source options s row column counting) : List CellValue :=
  x.items.map (x.use.valueOf options x.template)

def after (x : Expanded source options s row column counting) : Sheet :=
  (s.expansion x.template x.use row column counting).clearTemplate x.st

/-- What is reported. -/
def outcome (x : Expanded source options s row column counting) : Outcome :=
  Sheet.expansionOutcome x.use x.items

/-- Where a row is after the expansion. -/
def rowOf (x : Expanded source options s row column counting) (r : Nat) : Nat :=
  Sparse.moved (row + x.reach) (x.items.length - x.reach) r

theorem reach_le (x : Expanded source options s row column counting) : x.reach ≤ x.items.length :=
  Expansion.reach_le ..

theorem values_length (x : Expanded source options s row column counting) :
    x.values.length = x.items.length := List.length_map ..

theorem exists_value (x : Expanded source options s row column counting) {i : Nat}
    (inside : i < x.items.length) : ∃ value, x.values[i]? = some value :=
  ⟨_, List.getElem?_eq_getElem (by rwa [x.values_length])⟩

theorem written_eq (x : Expanded source options s row column counting) :
    source.written options x.template = x.values := by
  rw [Source.written_of_first x.first, x.found, Option.getD_some, values]

theorem le_rowOf (x : Expanded source options s row column counting) (r : Nat) : r ≤ x.rowOf r := by
  unfold rowOf Sparse.moved
  split <;> omega

/-- A row stays, or it comes to be below the template. -/
theorem rowOf_eq_or_lt (x : Expanded source options s row column counting) (r : Nat) :
    x.rowOf r = r ∨ row < x.rowOf r := by
  have positive := List.length_pos_iff.2 x.nonempty
  unfold rowOf Sparse.moved
  split <;> omega

theorem strictMono_rowOf (x : Expanded source options s row column counting) : StrictMono x.rowOf :=
  fun _ _ lt => Sparse.moved_lt_moved lt

theorem templateRow_eq (x : Expanded source options s row column counting) :
    x.st.templateRow = if x.reach = 0 then row + x.items.length else row := by
  rw [x.progress.template, List.length_map]
  rfl

theorem passable_iff (x : Expanded source options s row column counting) {place : Nat}
    (inside : place ≤ x.items.length) : s.Passable row column place ↔ place ≤ x.reach := by
  have usable : ∀ i, (s.expansion x.template x.use row column counting).rowState s i ≠ .taken ↔
      (s.hasRow (row + i) = true → s.isMerged (row + i) column = false ∧
        (0 < i → (s.value? (row + i) column).any CellValue.hasContent = false)) := by
    intro i
    rw [Ne, Expansion.rowState_eq_taken_iff, not_and, not_or, not_and, Bool.not_eq_true,
      Bool.not_eq_true]
    rfl
  cases place with
  | zero => exact iff_of_true (fun i low => absurd low (Nat.not_lt_zero i)) (Nat.zero_le _)
  | succ last =>
      rw [Nat.succ_le_iff, reach, Expansion.lt_reach_iff, and_iff_right (Nat.lt_of_succ_le inside)]
      simp only [Sheet.Passable, usable, Nat.lt_succ_iff]

theorem taken_iff_pushed (x : Expanded source options s row column counting) :
    (s.expansion x.template x.use row column counting).rowState s 0 = .taken ↔ x.reach = 0 := by
  constructor
  · intro taken
    by_contra used
    exact Expansion.not_taken_of_lt_reach (Nat.pos_of_ne_zero used) taken
  · intro pushed
    have short : x.reach < x.items.length := by
      rw [pushed]
      exact List.length_pos_iff.2 x.nonempty
    have first : (s.expansion x.template x.use row column counting).rowState s x.reach = .taken :=
      Expansion.taken_at_reach short
    rwa [pushed] at first

/-- Only the row of a merged cell is pushed down as a whole. -/
theorem isMerged_of_pushed (x : Expanded source options s row column counting) (pushed : x.reach = 0) :
    s.isMerged row column = true := by
  have taken := (Expansion.rowState_eq_taken_iff ..).1 (x.taken_iff_pushed.2 pushed)
  exact taken.2.resolve_right fun later => Nat.lt_irrefl _ later.1

theorem after_of_still (x : Expanded source options s row column counting) (still : 0 < x.reach) :
    x.after = x.st.sheet := by
  have stays : x.st.templateRow = row := by rw [x.templateRow_eq, if_neg (Nat.ne_of_gt still)]
  exact if_pos stays

theorem after_of_pushed (x : Expanded source options s row column counting) (pushed : x.reach = 0) :
    x.after = x.st.sheet.setValue (row + x.items.length) column .blank := by
  have positive := List.length_pos_iff.2 x.nonempty
  have place := x.templateRow_eq
  rw [if_pos pushed] at place
  have moved : x.st.templateRow ≠ row := by omega
  rw [← place]
  exact if_neg moved

/-- Only a template that was pushed down is changed in the end. -/
theorem cell?_after (x : Expanded source options s row column counting) {r c : Nat}
    (other : ¬(x.reach = 0 ∧ r = row + x.items.length ∧ c = column)) :
    x.after.cell? r c = x.st.sheet.cell? r c := by
  rcases Nat.eq_zero_or_pos x.reach with pushed | still
  · rw [x.after_of_pushed pushed]
    exact Sheet.cell?_setValue_of_ne _ _ fun both => other ⟨pushed, both⟩
  · rw [x.after_of_still still]

theorem cleared (x : Expanded source options s row column counting) (pushed : x.reach = 0) :
    x.after.value? (row + x.items.length) column = some .blank := by
  rw [x.after_of_pushed pushed, Sheet.value?_setValue, if_pos ⟨rfl, rfl⟩]

theorem merged_after (x : Expanded source options s row column counting) :
    x.after.merged = (s.shiftRows (row + x.reach) (x.items.length - x.reach)).merged := by
  have same := x.progress.merged
  rw [List.length_map] at same
  rcases Nat.eq_zero_or_pos x.reach with pushed | still
  · rw [x.after_of_pushed pushed]
    exact same
  · rw [x.after_of_still still]
    exact same

theorem isMerged_after (x : Expanded source options s row column counting) (r c : Nat) :
    x.after.isMerged (x.rowOf r) c = s.isMerged r c := by
  rw [Sheet.isMerged_congr x.merged_after]
  exact Sheet.isMerged_shiftRows ..

theorem name_after (x : Expanded source options s row column counting) : x.after.name = s.name := by
  have same := Expansion.name_writeItems x.ran
  rcases Nat.eq_zero_or_pos x.reach with pushed | still
  · rw [x.after_of_pushed pushed]
    exact same
  · rw [x.after_of_still still]
    exact same

theorem cell?_above (x : Expanded source options s row column counting) {r : Nat} (high : r < row)
    (c : Nat) : x.after.cell? r c = s.cell? r c := by
  rw [x.cell?_after (by omega)]
  exact Sheet.cell?_congr (x.progress.above r high) c

/-- The rows from the first one that could not be used on have moved down. -/
theorem row_below (x : Expanded source options s row column counting) {r : Nat} (low : row + x.reach ≤ r) :
    x.st.sheet.rows.get? (r + (x.items.length - x.reach)) = s.rows.get? r := by
  have bound : row + min x.reach (x.items.map (x.use.valueOf options x.template)).length ≤ r := by
    omega
  have same := x.progress.below r bound
  rw [List.length_map] at same
  exact same

/-- Clearing the template makes no row. -/
theorem hasRow_after (x : Expanded source options s row column counting) (r : Nat) :
    x.after.hasRow r = x.st.sheet.hasRow r := by
  rcases Nat.eq_zero_or_pos x.reach with pushed | still
  · obtain ⟨cell, held, -⟩ := (Sheet.text?_eq_some_iff ..).1 x.holds
    have moved := x.row_below (r := row) (by omega)
    rw [pushed, Nat.sub_zero] at moved
    have present : x.st.sheet.hasRow (row + x.items.length) = true := by
      rw [Sheet.hasRow_eq_isSome, moved]
      exact Sheet.hasRow_of_cell? held
    rw [x.after_of_pushed pushed, Sheet.hasRow_setValue present]
  · rw [x.after_of_still still]

theorem cell?_below (x : Expanded source options s row column counting) {r c : Nat}
    (low : row + x.reach ≤ r) (other : ¬(r = row ∧ c = column)) :
    x.after.cell? (r + (x.items.length - x.reach)) c = s.cell? r c := by
  have fits := x.reach_le
  rw [x.cell?_after (by omega)]
  exact Sheet.cell?_congr (x.row_below low) c

/-- The row of an item, as the expansion has written it. -/
theorem row_written (x : Expanded source options s row column counting) {i : Nat} {value : CellValue}
    (at_ : x.values[i]? = some value) :
    x.st.sheet.rows.get? (row + i) =
      some ((s.expansion x.template x.use row column counting).line
        (if i < x.reach then s.rows.get? (row + i) else none) value) :=
  x.progress.written i value at_

/-- A written cell has the style of the template cell. -/
theorem cell?_written (x : Expanded source options s row column) {style : UInt32}
    (styled : s.style? row column = some style) {i : Nat} {value : CellValue}
    (at_ : x.values[i]? = some value) :
    x.after.cell? (row + i) column = some { value, style } := by
  have low : i < x.values.length := (List.getElem?_eq_some_iff.1 at_).1
  rw [x.values_length] at low
  have fresh : (s.expansion x.template x.use row column).styledRow.get? column =
      some { style } := by
    obtain ⟨cell, held, same⟩ := Option.map_eq_some_iff.1 styled
    rw [Sheet.get?_styledRow, held, Option.map_some, same]
  rw [x.cell?_after (by omega), Sheet.cell?, x.row_written at_, Option.bind_some]
  exact Expansion.line_styled styled fresh _ _

theorem value?_written (x : Expanded source options s row column counting) {i : Nat}
    {value : CellValue} (at_ : x.values[i]? = some value) :
    x.after.value? (row + i) column = some value := by
  have low : i < x.values.length := (List.getElem?_eq_some_iff.1 at_).1
  rw [x.values_length] at low
  rw [Sheet.value?, x.cell?_after (by omega), Sheet.cell?, x.row_written at_, Option.bind_some]
  exact Expansion.value_line ..

theorem hasRow_written (x : Expanded source options s row column counting) {i : Nat}
    (inside : i < x.items.length) : x.after.hasRow (row + i) = true := by
  obtain ⟨value, at_⟩ := x.exists_value inside
  obtain ⟨cell, held, -⟩ := Option.map_eq_some_iff.1 (x.value?_written at_)
  exact Sheet.hasRow_of_cell? held

/-- A row that was used where it is keeps its other cells. -/
theorem cell?_reused (x : Expanded source options s row column counting) {i c : Nat}
    (low : i < x.reach) (present : s.hasRow (row + i) = true) (other : c ≠ column) :
    x.after.cell? (row + i) c = s.cell? (row + i) c := by
  have fits := x.reach_le
  obtain ⟨value, at_⟩ := x.exists_value (Nat.lt_of_lt_of_le low fits)
  obtain ⟨old, held⟩ := Option.isSome_iff_exists.1 present
  rw [x.cell?_after (by omega), Sheet.cell?, x.row_written at_, if_pos low, held,
    Option.bind_some, Expansion.line_of_ne _ _ _ other, Sheet.cell?, held, Option.bind_some]

/-- A row that the expansion has made holds nothing but the value of its item. -/
private theorem cell?_new (x : Expanded source options s row column counting) {i c : Nat}
    (inside : i < x.items.length) (new : i < x.reach → s.hasRow (row + i) = false)
    (other : c ≠ column) :
    x.after.cell? (row + i) c =
      (s.expansion x.template x.use row column counting).styledRow.get? c := by
  obtain ⟨value, at_⟩ := x.exists_value inside
  have absent : (if i < x.reach then s.rows.get? (row + i) else none) = none := by
    split
    · rename_i low
      exact Option.isSome_eq_false_iff.1 (new low) |> Option.isNone_iff_eq_none.1
    · rfl
  rw [x.cell?_after (by omega), Sheet.cell?, x.row_written at_, absent, Option.bind_some]
  exact Expansion.line_none_of_ne _ _ other

/-- Apart from the value of its item a new row has the cells of the template row, blank and in
their styles. -/
theorem cell?_made (x : Expanded source options s row column) {i c : Nat}
    (inside : i < x.items.length) (new : i < x.reach → s.hasRow (row + i) = false)
    (other : c ≠ column) :
    x.after.cell? (row + i) c = (s.cell? row c).map fun cell => { style := cell.style } :=
  (x.cell?_new inside new other).trans (Sheet.get?_styledRow ..)

theorem blank_made (x : Expanded source options s row column counting) {i c : Nat}
    (inside : i < x.items.length) (new : i < x.reach → s.hasRow (row + i) = false)
    (other : c ≠ column) : ((x.after.cell? (row + i) c).getD {}).value = .blank := by
  rw [x.cell?_new inside new other]
  exact Expansion.styledRow_blank ..

/-- No row is lost. -/
theorem hasRow_rowOf (x : Expanded source options s row column counting) {r : Nat}
    (present : s.hasRow r = true) : x.after.hasRow (x.rowOf r) = true := by
  have fits := x.reach_le
  unfold rowOf
  by_cases high : r < row
  · rw [Sparse.moved_of_lt (by omega), x.hasRow_after, Sheet.hasRow_eq_isSome,
      x.progress.above r high]
    exact present
  · by_cases low : row + x.reach ≤ r
    · rw [Sparse.moved_of_le low, x.hasRow_after, Sheet.hasRow_eq_isSome, x.row_below low]
      exact present
    · obtain ⟨i, rfl⟩ := Nat.exists_eq_add_of_le (Nat.le_of_not_lt high)
      rw [Sparse.moved_of_lt (by omega)]
      exact x.hasRow_written (by omega)

/-- What an expansion finds is kept: a row above the values, the row of a value or a row that has
moved below them. -/
theorem cell?_found (x : Expanded source options s row column counting) {r c : Nat}
    (present : s.hasRow r = true) (apart : c ≠ column ∨ r < row ∨ row < r ∧ row + x.reach ≤ r) :
    x.after.cell? (x.rowOf r) c = s.cell? r c := by
  unfold rowOf
  by_cases high : r < row
  · rw [Sparse.moved_of_lt (by omega), x.cell?_above high]
  · by_cases low : row + x.reach ≤ r
    · rw [Sparse.moved_of_le low, x.cell?_below low (by omega)]
    · obtain ⟨i, rfl⟩ := Nat.exists_eq_add_of_le (Nat.le_of_not_lt high)
      rw [Sparse.moved_of_lt (by omega), x.cell?_reused (by omega) present (by omega)]

/-- A row that is nowhere to be found in the sheet before was made for a value. -/
theorem exists_made (x : Expanded source options s row column counting) {q : Nat}
    (present : x.after.hasRow q = true) (new : ∀ r, s.hasRow r = true → x.rowOf r ≠ q) :
    ∃ i < x.items.length, q = row + i ∧ (i < x.reach → s.hasRow (row + i) = false) := by
  have fits := x.reach_le
  rw [x.hasRow_after] at present
  by_cases high : q < row
  · rw [Sheet.hasRow_eq_isSome, x.progress.above q high] at present
    exact absurd (Sparse.moved_of_lt (by omega)) (new q present)
  · by_cases low : row + x.items.length ≤ q
    · obtain ⟨r, rfl⟩ : ∃ r, q = r + (x.items.length - x.reach) :=
        ⟨q - (x.items.length - x.reach), by omega⟩
      rw [Sheet.hasRow_eq_isSome, x.row_below (by omega)] at present
      exact absurd (Sparse.moved_of_le (by omega)) (new r present)
    · obtain ⟨i, rfl⟩ := Nat.exists_eq_add_of_le (Nat.le_of_not_lt high)
      refine ⟨i, by omega, rfl, fun early => ?_⟩
      rw [← Bool.not_eq_true]
      exact fun there => new _ there (Sparse.moved_of_lt (by omega))

/-- An expansion takes a row down by the number of its items at most. -/
theorem exists_row_above (x : Expanded source options s row column counting) {q : Nat}
    (present : x.after.hasRow q = true) : ∃ r, s.hasRow r = true ∧ q ≤ r + x.items.length := by
  by_cases new : ∀ r, s.hasRow r = true → x.rowOf r ≠ q
  · obtain ⟨i, inside, rfl, -⟩ := x.exists_made present new
    obtain ⟨cell, held, -⟩ := (Sheet.text?_eq_some_iff ..).1 x.holds
    exact ⟨row, Sheet.hasRow_of_cell? held, by omega⟩
  · push Not at new
    obtain ⟨r, there, rfl⟩ := new
    refine ⟨r, there, ?_⟩
    unfold rowOf Sparse.moved
    split <;> omega

theorem exists_region_above (x : Expanded source options s row column counting) {region : Region}
    (member : region ∈ x.after.merged) : ∃ before ∈ s.merged,
      region.firstRow ≤ before.firstRow + x.items.length ∧
        region.lastRow ≤ before.lastRow + x.items.length := by
  rw [x.merged_after, Sheet.shiftRows, Sheet.wrap_endless, List.mem_map] at member
  obtain ⟨before, inside, rfl⟩ := member
  obtain ⟨first, last⟩ := before.shift_le (row + x.reach) (x.items.length - x.reach)
  exact ⟨before, inside, by omega, by omega⟩

theorem room_after (x : Expanded source options s row column counting) {count : Nat}
    (room : s.Room counting (x.items.length + count)) : x.after.Room counting count where
  rows q present := by
    obtain ⟨r, there, low⟩ := x.exists_row_above present
    exact (room.rows r there).mono (by omega)
  regions region member := by
    obtain ⟨before, inside, first, last⟩ := x.exists_region_above member
    obtain ⟨roomFirst, roomLast⟩ := room.regions before inside
    exact ⟨roomFirst.mono (by omega), roomLast.mono (by omega)⟩

/-- Content is kept, only the template gives way to its items. -/
theorem kept (x : Expanded source options s row column counting) {r c : Nat} {cell : Cell}
    (held : s.cell? r c = some cell) (content : cell.value.hasContent = true)
    (other : ¬(r = row ∧ c = column)) : x.after.cell? (x.rowOf r) c = some cell := by
  have present := Sheet.hasRow_of_cell? held
  refine (x.cell?_found present ?_).trans held
  by_contra inside
  -- a row before `reach` has no content in the column of the template
  obtain ⟨i, rfl⟩ : ∃ i, r = row + i := ⟨r - row, by omega⟩
  obtain rfl : c = column := by omega
  refine Expansion.not_taken_of_lt_reach (show i < x.reach by omega) ?_
  rw [Expansion.rowState_eq_taken_iff]
  refine ⟨present, .inr ⟨by omega, ?_⟩⟩
  show (s.value? (row + i) c).any CellValue.hasContent = true
  rw [Sheet.value?, held]
  exact content

theorem text_kept (x : Expanded source options s row column counting) {r c : Nat} {text : String}
    (held : s.text? r c = some text) (content : text ≠ "") (other : ¬(r = row ∧ c = column)) :
    x.after.text? (x.rowOf r) c = some text := by
  obtain ⟨cell, present, value⟩ := (Sheet.text?_eq_some_iff ..).1 held
  have full : cell.value.hasContent = true := by
    rw [value, CellValue.hasContent, bne_iff_ne]
    exact content
  exact (Sheet.text?_eq_some_iff ..).2 ⟨cell, x.kept present full other, value⟩

/-- Text in the rows of the items is written for one of them, or it was there before. -/
private theorem text_inside (x : Expanded source options s row column counting) {i c : Nat} {text : String}
    (inside : i < x.items.length) (held : x.after.text? (row + i) c = some text) :
    (c = column ∧ x.values[i]? = some (.text text)) ∨
      (c ≠ column ∧ i < x.reach ∧ s.text? (row + i) c = some text) := by
  obtain ⟨cell, present, value⟩ := (Sheet.text?_eq_some_iff ..).1 held
  by_cases same : c = column
  · left
    subst same
    obtain ⟨written, at_⟩ := x.exists_value inside
    have same := x.value?_written at_
    rw [Sheet.value?, present, Option.map_some, value] at same
    exact ⟨rfl, at_.trans same.symm⟩
  · right
    by_cases reused : i < x.reach ∧ s.hasRow (row + i) = true
    · rw [Sheet.text?_congr (x.cell?_reused reused.1 reused.2 same)] at held
      exact ⟨same, reused.1, held⟩
    · have new : i < x.reach → s.hasRow (row + i) = false := by
        intro early
        rw [← Bool.not_eq_true]
        exact fun there => reused ⟨early, there⟩
      have made := x.blank_made inside new same
      rw [present, Option.getD_some, value] at made
      cases made

/-- Text below the items was there before, and it is not the template. -/
private theorem text_below (x : Expanded source options s row column counting) {r c : Nat} {text : String}
    (low : row + x.reach ≤ r)
    (held : x.after.text? (r + (x.items.length - x.reach)) c = some text) :
    ¬(r = row ∧ c = column) ∧ s.text? r c = some text := by
  have other : ¬(r = row ∧ c = column) := by
    rintro ⟨rfl, rfl⟩
    have pushed : x.reach = 0 := by omega
    have blank := x.cleared pushed
    obtain ⟨cell, present, value⟩ := (Sheet.text?_eq_some_iff ..).1 held
    rw [pushed, Nat.sub_zero] at present
    rw [Sheet.value?, present, Option.map_some, value] at blank
    cases blank
  rw [Sheet.text?_congr (x.cell?_below low other)] at held
  exact ⟨other, held⟩

/-- Text is either written for an item or was there before. -/
theorem text_origin (x : Expanded source options s row column counting) {r c : Nat} {text : String}
    (held : x.after.text? r c = some text) :
    (∃ i, r = row + i ∧ c = column ∧ x.values[i]? = some (.text text)) ∨
      ∃ q, r = x.rowOf q ∧ ¬(q = row ∧ c = column) ∧ s.text? q c = some text := by
  have fits := x.reach_le
  unfold rowOf
  by_cases high : r < row
  · rw [Sheet.text?_congr (x.cell?_above high c)] at held
    right
    exact ⟨r, (Sparse.moved_of_lt (by omega)).symm, by omega, held⟩
  · by_cases low : row + x.items.length ≤ r
    · obtain ⟨q, rfl⟩ : ∃ q, r = q + (x.items.length - x.reach) :=
        ⟨r - (x.items.length - x.reach), by omega⟩
      have below : row + x.reach ≤ q := by omega
      right
      exact ⟨q, (Sparse.moved_of_le below).symm, x.text_below below held⟩
    · obtain ⟨i, rfl⟩ := Nat.exists_eq_add_of_le (Nat.le_of_not_lt high)
      rcases x.text_inside (by omega) held with ⟨same, written⟩ | ⟨other, early, before⟩
      · left
        exact ⟨i, rfl, same, written⟩
      · right
        refine ⟨row + i, (Sparse.moved_of_lt (by omega)).symm, ?_, before⟩
        exact fun both => other both.2

end Expanded

/-- What a visit can come to, with what it reports. -/
inductive CollectionVisit (source : Source) (options : FillOptions) (s : Sheet)
    (row column : Nat) (counting : Counting := .endless) : Sheet → Outcome → Prop
  | plain (nothing : ∀ text, s.text? row column = some text → firstCollection? text = none) :
      CollectionVisit source options s row column counting s {}
  | unresolved (template : String) (use : CollectionUse)
      (holds : s.text? row column = some template) (first : firstCollection? template = some use)
      (absent : source.items? use.collection = none) :
      CollectionVisit source options s row column counting s { unresolved := [use.sourceText] }
  | empty (template : String) (use : CollectionUse) (holds : s.text? row column = some template)
      (first : firstCollection? template = some use)
      (found : source.items? use.collection = some []) :
      CollectionVisit source options s row column counting s { expanded := 1 }
  | expanded (x : Expanded source options s row column counting) :
      CollectionVisit source options s row column counting x.after x.outcome

namespace Sheet

variable {source : Source} {options : FillOptions} {s : Sheet} {row column : Nat}
  {template : String} {use : CollectionUse} {items : List Value} {counting : Counting}

/-- Expanding a cell whose placeholder has items writes all of them, if there is room for them. -/
theorem exists_expanded (options : FillOptions) (holds : s.text? row column = some template)
    (first : firstCollection? template = some use)
    (found : source.items? use.collection = some items) (nonempty : items ≠ [])
    (room : s.Room counting items.length) :
    ∃ x : Expanded source options s row column counting,
      x.template = template ∧ x.use = use ∧ x.items = items ∧
        expandAt source options false s row column counting = .done x.after x.outcome := by
  let e := s.expansion template use row column counting
  obtain ⟨st, ran, progress⟩ := (e.progress_start s (e.reach s items.length)).run
    options items (by rw [List.length_nil, Nat.zero_add])
  obtain ⟨cell, held, -⟩ := (text?_eq_some_iff ..).1 holds
  have last : counting.Counts (row + items.length) := room.rows row (hasRow_of_cell? held)
  have counted : e.writeItems options false 0 items { sheet := s, templateRow := row } counting =
      .done st () := (Expansion.writeItems_counted room last last).trans ran
  exact ⟨{ template, use, items, st, holds, first, found, nonempty, ran, progress },
    rfl, rfl, rfl, expandAt_of_done holds first found counted⟩

/-- With room for the items and for the columns an expansion in machine words is one without an
end. -/
theorem expandAt_counted (options : FillOptions) (holds : s.text? row column = some template)
    (first : firstCollection? template = some use)
    (found : source.items? use.collection = some items) (room : s.Room counting items.length)
    (narrow : s.Narrow counting row) :
    expandAt source options false s row column counting =
      expandAt source options false s row column := by
  obtain ⟨cell, held, -⟩ := (text?_eq_some_iff ..).1 holds
  have last : counting.Counts (row + items.length) := room.rows row (hasRow_of_cell? held)
  have same : s.expansion template use row column counting = s.expansion template use row column := by
    rw [expansion, rowStyles_counted narrow, expansion]
  obtain ⟨st, ran⟩ := (s.expansion template use row column).writeItems_done options 0 items
    { sheet := s, templateRow := row } .endless
  have counted : (s.expansion template use row column counting).writeItems options false 0 items
      { sheet := s, templateRow := row } counting = .done st () := by
    rw [same]
    exact (Expansion.writeItems_counted room last last).trans ran
  rw [expandAt_of_done holds first found counted, expandAt_of_done holds first found ran, same]

theorem expandAt_of_empty (counting : Counting) (holds : s.text? row column = some template)
    (first : firstCollection? template = some use)
    (found : source.items? use.collection = some []) :
    expandAt source options false s row column counting = .done s { expanded := 1 } := by
  have ran : (s.expansion template use row column counting).writeItems options false 0 []
      { sheet := s, templateRow := row } counting =
        .done { sheet := s, templateRow := row } () := rfl
  have still : (s.expansion template use row column counting).clearTemplate
      { sheet := s, templateRow := row } = s := if_pos rfl
  rw [expandAt_of_done holds first found ran, still]
  rfl

theorem expandAt_cases (holds : s.text? row column = some template)
    (first : firstCollection? template = some use)
    (found : source.items? use.collection = some items) (room : s.Room counting items.length) :
    ∃ next outcome, expandAt source options false s row column counting = .done next outcome ∧
      CollectionVisit source options s row column counting next outcome := by
  by_cases empty : items = []
  · subst empty
    exact ⟨s, _, expandAt_of_empty counting holds first found,
      .empty template use holds first found⟩
  · obtain ⟨x, -, -, -, ran⟩ := exists_expanded options holds first found empty room
    exact ⟨_, _, ran, .expanded x⟩

end Sheet

/-- A visit does one of four things, if there is room for what it writes. -/
theorem visitCollections_cases_of_room {source : Source} (options : FillOptions) {s : Sheet}
    {row column : Nat} {counting : Counting}
    (room : s.Room counting (s.collectionOutcome source row column).rowsEmitted) :
    ∃ next outcome, Sheet.visitCollections source options false counting s row column =
      .done next outcome ∧ CollectionVisit source options s row column counting next outcome := by
  unfold Sheet.collectionOutcome at room
  unfold Sheet.visitCollections Sheet.hasCollectionAt
  cases holds : s.text? row column with
  | none => exact ⟨s, {}, rfl, .plain fun text found => by cases holds.symm.trans found⟩
  | some template =>
      rw [Option.any_some, hasPlaceholder_collection]
      cases first : firstCollection? template with
      | none =>
          refine ⟨s, {}, rfl, .plain ?_⟩
          intro text found
          cases holds.symm.trans found
          exact first
      | some use =>
          rw [Option.isSome_some, if_pos rfl]
          cases found : source.items? use.collection with
          | none =>
              simp only [Sheet.expandAt, holds, first, found]
              exact ⟨s, _, rfl, .unresolved template use holds first found⟩
          | some items =>
              rw [holds, Option.bind_some, first, Option.elim_some, found] at room
              exact Sheet.expandAt_cases holds first found room

theorem visitCollections_cases (source : Source) (options : FillOptions) (s : Sheet)
    (row column : Nat) :
    ∃ next outcome, Sheet.visitCollections source options false .endless s row column =
      .done next outcome ∧ CollectionVisit source options s row column .endless next outcome :=
  visitCollections_cases_of_room options (s.room_endless _)

/-- The two things that a visit can do to the sheet. -/
inductive Visited (source : Source) (options : FillOptions) (s : Sheet) (row column : Nat)
    (counting : Counting := .endless) : Sheet → Prop
  | quiet (nothing : ∀ text, s.text? row column = some text → source.written options text = []) :
      Visited source options s row column counting s
  | expanded (x : Expanded source options s row column counting) :
      Visited source options s row column counting x.after

theorem CollectionVisit.visited {source : Source} {options : FillOptions} {s next : Sheet}
    {row column : Nat} {outcome : Outcome} {counting : Counting}
    (visit : CollectionVisit source options s row column counting next outcome) :
    Visited source options s row column counting next := by
  cases visit with
  | plain nothing =>
      apply Visited.quiet
      intro text held
      exact Source.written_of_none (nothing text held)
  | unresolved template use holds first absent =>
      apply Visited.quiet
      intro text held
      cases holds.symm.trans held
      exact Source.written_of_absent first absent
  | empty template use holds first found =>
      apply Visited.quiet
      intro text held
      cases holds.symm.trans held
      rw [Source.written_of_first first, found, Option.getD_some, List.map_nil]
  | expanded x => exact .expanded x

theorem CollectionVisit.room {source : Source} {options : FillOptions} {s next : Sheet}
    {row column count : Nat} {outcome : Outcome} {counting : Counting}
    (visit : CollectionVisit source options s row column counting next outcome)
    (room : s.Room counting (outcome.rowsEmitted + count)) : next.Room counting count := by
  cases visit with
  | plain nothing => exact room.mono (Nat.le_add_left ..)
  | unresolved template use holds first absent => exact room.mono (Nat.le_add_left ..)
  | empty template use holds first found => exact room.mono (Nat.le_add_left ..)
  | expanded x => exact x.room_after room

theorem CollectionVisit.name_eq {source : Source} {options : FillOptions} {s next : Sheet}
    {row column : Nat} {outcome : Outcome} {counting : Counting}
    (visit : CollectionVisit source options s row column counting next outcome) :
    next.name = s.name := by
  cases visit with
  | plain nothing => rfl
  | unresolved template use holds first absent => rfl
  | empty template use holds first found => rfl
  | expanded x => exact x.name_after

theorem visitCollections_visited (source : Source) (options : FillOptions) (s : Sheet)
    (row column : Nat) :
    ∃ next outcome, Sheet.visitCollections source options false .endless s row column =
      .done next outcome ∧ Visited source options s row column .endless next := by
  obtain ⟨next, outcome, ran, visit⟩ := visitCollections_cases source options s row column
  exact ⟨next, outcome, ran, visit.visited⟩

end Stencil
