import Stencil.Proofs.Sheet.Headroom

/-! Walks that run over the last machine word. Rows that are pushed over it come to the first
numbers of the sheet, and the walk goes on there. -/

namespace Stencil

namespace Sheet

variable {source : Source} {options : FillOptions} {s t : Sheet} {row column : Nat}

/-! ### Sheets with a row under every number -/

/-- There is a row under every machine word. -/
def Full (s : Sheet) : Prop := ∀ row < UInt64.size, s.hasRow row = true

namespace Full

theorem of_rows (full : s.Full) (rows : ∀ r, s.hasRow r = true → t.hasRow r = true) : t.Full :=
  fun r low => rows r (full r low)

theorem updateCell (full : s.Full) (row column : Nat) (f : Cell → Cell) :
    (s.updateCell row column f).Full := by
  refine full.of_rows fun r present => ?_
  rw [hasRow_eq_isSome, row_updateCell]
  split
  · rfl
  · exact present

theorem createRow (full : s.Full) (row : Nat) : (s.createRow row).Full := by
  refine full.of_rows fun r present => ?_
  rw [hasRow_eq_isSome, row_createRow]
  split
  · rfl
  · exact present

/-- A row that is pushed down takes the place of the next one, the last one that of the first. -/
theorem shiftRows (full : s.Full) (row : Nat) :
    ((s.shiftRows row 1 .words).createRow row).Full := by
  intro r low
  rw [hasRow_eq_isSome, row_createRow]
  split
  · rfl
  · rename_i other
    have shifted : (s.rows.shift row 1).contains r = true := by
      rw [Sparse.contains, Sparse.get?_shift]
      by_cases above : r < row
      · rw [if_pos above]
        exact full r low
      · rw [if_neg above, if_neg (by omega)]
        exact full (r - 1) (by omega)
    have found := Sparse.contains_renumber shifted Counting.words.wrap
    have same : Counting.words.wrap r = r := Nat.mod_eq_of_lt low
    rwa [same] at found

theorem writeItem {e : Expansion} {offset : Nat} {item : Value} {st : Emission}
    (full : st.sheet.Full) : (e.writeItem options offset item st .words).sheet.Full := by
  apply updateCell
  unfold Expansion.prepare
  cases e.rowState st.sheet offset .words with
  | missing =>
      exact e.freshRow_keeps Full (full.createRow _) fun _ _ _ full => full.updateCell _ _ _
  | taken =>
      exact e.freshRow_keeps Full (full.shiftRows _) fun _ _ _ full => full.updateCell _ _ _
  | free =>
      cases e.anchorStyle with
      | none => exact full
      | some style => exact full.updateCell _ _ _

theorem writeItems {e : Expansion} {items : List Value} {offset : Nat} {st last : Emission}
    (full : st.sheet.Full)
    (ran : e.writeItems options false offset items st .words = .done last ()) :
    last.sheet.Full := by
  induction items generalizing offset st with
  | nil =>
      cases ran
      exact full
  | cons item rest ih =>
      rw [Expansion.writeItems, if_neg Bool.false_ne_true] at ran
      exact ih full.writeItem ran

theorem expandAt (full : s.Full) (row column : Nat) :
    ∃ next outcome, s.expandAt source options false row column .words = .done next outcome ∧
      next.Full := by
  cases holds : s.text? row column with
  | none => exact ⟨s, {}, by simp only [Sheet.expandAt, holds], full⟩
  | some template =>
      cases first : firstCollection? template with
      | none => exact ⟨s, {}, by simp only [Sheet.expandAt, holds, first], full⟩
      | some use =>
          cases found : source.items? use.collection with
          | none =>
              exact ⟨s, { unresolved := [use.sourceText] },
                by simp only [Sheet.expandAt, holds, first, found], full⟩
          | some items =>
              let e := s.expansion template use row column .words
              obtain ⟨st, ran⟩ := e.writeItems_done options 0 items
                { sheet := s, templateRow := row } .words
              refine ⟨_, _, expandAt_of_done holds first found ran, ?_⟩
              have written : st.sheet.Full := writeItems full ran
              unfold Expansion.clearTemplate
              split
              · exact written
              · exact written.updateCell _ _ _

theorem visit (full : s.Full) (row column : Nat) :
    ∃ next outcome, visitCollections source options false .words s row column =
      .done next outcome ∧ next.Full := by
  unfold visitCollections
  split
  · exact full.expandAt row column
  · exact ⟨s, {}, rfl, full⟩

theorem rowVisit (full : s.Full) (source : Source) (options : FillOptions) (row : Nat)
    (columns : List Nat) :
    ∃ next, RowVisit (visitCollections source options false .words) row columns s next ∧
      next.Full :=
  rowVisit_of_step (fun _ t => t.Full) (fun column _ _ full => full.visit row column) columns full

theorem lt_height (full : s.Full) (low : row < UInt64.size) : row < s.height :=
  Sheet.lt_height (full row low)

end Full

/-! ### Texts that name themselves -/

/-- The sheet has the rows down to one of them, and no merged regions. -/
structure DownTo (row : Nat) (s : Sheet) : Prop where
  rows : ∀ r, s.hasRow r = true ↔ r ≤ row
  unmerged : s.merged = []

theorem DownTo.room (down : s.DownTo row) (low : row + 1 < UInt64.size) : s.Room .words 1 where
  rows r present := by
    have above := (down.rows r).1 present
    exact Counting.counts_words_iff.2 (by omega)
  regions region member := by
    rw [down.unmerged] at member
    cases member

/-- Nothing is pushed down by an item that takes the place of the template or comes behind the last
row. -/
theorem DownTo.writeItem (e : Expansion) (options : FillOptions) (item : Value) {offset : Nat}
    {st : Emission} (down : st.sheet.DownTo row) (low : row + 1 < UInt64.size)
    (template : st.templateRow ≤ row)
    (place : offset = 0 ∧ e.anchor = row ∨ e.anchor + offset = row + 1) :
    (e.writeItem options offset item st .words).sheet.DownTo (e.anchor + offset) ∧
      (e.writeItem options offset item st .words).sheet.rows.get? (e.anchor + offset) =
        some (e.line (st.sheet.rows.get? (e.anchor + offset)) (e.cellOf options item)) ∧
      (e.writeItem options offset item st .words).templateRow = st.templateRow := by
  have usable : e.rowState st.sheet offset ≠ .taken := by
    rw [Ne, Expansion.rowState_eq_taken_iff, down.rows, isMerged, down.unmerged]
    rintro ⟨inside, merged | ⟨positive, -⟩⟩
    · cases merged
    · omega
  rw [Expansion.writeItem_counted (down.room low) (Counting.counts_words_iff.2 (by omega))
    (Counting.counts_words_iff.2 (by omega))]
  refine ⟨⟨fun r => ?_, ?_⟩, ?_, ?_⟩
  · rw [hasRow_eq_isSome, Expansion.row_writeItem_of_not_taken usable]
    split
    · rename_i same
      exact iff_of_true rfl (Nat.le_of_eq same)
    · refine (down.rows r).trans ?_
      omega
  · rw [Expansion.merged_writeItem, if_neg usable, down.unmerged]
  · rw [Expansion.row_writeItem_of_not_taken usable, if_pos rfl]
  · rw [Expansion.templateRow_writeItem, if_neg fun taken => usable taken.1]

/-- The last row holds nothing but the text. -/
structure EndsIn (text : String) (style : UInt32) (row : Nat) (s : Sheet) : Prop
    extends s.DownTo row where
  last : s.rows.get? row = some (.ofList [(0, { value := .text text, style })])

namespace EndsIn

variable {text : String} {style : UInt32} {use : CollectionUse} {a b : Value}

theorem columns (ends : s.EndsIn text style row) : s.columns row .words = [0] := by
  unfold Sheet.columns columnBounds
  rw [ends.last]
  rfl

theorem cell? (ends : s.EndsIn text style row) :
    s.cell? row 0 = some { value := .text text, style } := by
  rw [Sheet.cell?, ends.last]
  rfl

/-- Where an expansion writes a value and the text itself, the text comes to the row behind. -/
theorem visit (ends : s.EndsIn text style row) (low : row + 1 < UInt64.size)
    (first : firstCollection? text = some use)
    (found : source.items? use.collection = some [a, b])
    (again : use.valueOf options text b = .text text) :
    ∃ next outcome, visitCollections source options false .words s row 0 = .done next outcome ∧
      next.EndsIn text style (row + 1) := by
  have holds : s.text? row 0 = some text := by
    rw [text?, value?, ends.cell?]
    rfl
  have styled : s.style? row 0 = some style := by
    rw [style?, ends.cell?]
    rfl
  have styles : s.rowStyles row .words = [(0, style)] := by
    rw [rowStyles, ends.columns, List.filterMap_cons, styled]
    rfl
  let e := s.expansion text use row 0 .words
  let start : Emission := { sheet := s, templateRow := row }
  have down : start.sheet.DownTo row := ends.toDownTo
  obtain ⟨downFirst, -, stays⟩ := down.writeItem e options a low (Nat.le_refl row)
    (.inl ⟨rfl, rfl⟩)
  obtain ⟨downBoth, last, still⟩ := downFirst.writeItem e options b low (Nat.le_of_eq stays)
    (.inr rfl)
  have ran : e.writeItems options false 0 [a, b] start .words =
      .done (e.writeItem options 1 b (e.writeItem options 0 a start .words) .words) () := rfl
  have stands : (e.writeItem options 1 b (e.writeItem options 0 a start .words) .words).templateRow =
      (s.expansion text use row 0 .words).anchor := still.trans stays
  have expands := expandAt_of_done holds first found ran
  rw [Expansion.clearTemplate, if_pos stands] at expands
  refine ⟨_, expansionOutcome use [a, b], ?_, downBoth, ?_⟩
  · rw [visitCollections, hasCollectionAt, holds, Option.any_some, hasPlaceholder_collection,
      first, Option.isSome_some, if_pos rfl]
    exact expands
  · have absent : (e.writeItem options 0 a start .words).sheet.rows.get? (e.anchor + 1) =
        none := by
      rw [← Option.not_isSome_iff_eq_none, ← hasRow_eq_isSome, downFirst.rows]
      exact Nat.not_succ_le_self row
    have fresh : e.styledRow = .ofList [(0, { style })] := by
      show (s.rowStyles row .words).foldl _ _ = _
      rw [styles]
      rfl
    have value : e.cellOf options b = .text text := again
    refine last.trans ?_
    rw [absent, value, Expansion.line, fresh]
    rfl

/-- Such a text is expanded in one row after the other, until every number has its row. -/
theorem fill_eq_none (ends : s.EndsIn text style 0) (source : Source) (options : FillOptions)
    (first : firstCollection? text = some use)
    (found : source.items? use.collection = some [a, b])
    (again : use.valueOf options text b = .text text) (bound : Nat) (report : Report) :
    s.fill source options false bound report .words = none := by
  have step : ∀ row t, row < UInt64.size ∧ (t.Full ∨ t.EndsIn text style row) → row < t.height ∧
      ∃ next, RowVisit (visitCollections source options false .words) row (t.columns row .words)
        t next ∧ Counting.words.wrap (row + 1) < UInt64.size ∧
          (next.Full ∨ next.EndsIn text style (Counting.words.wrap (row + 1))) := by
    rintro row t ⟨low, state⟩
    have wrapped : Counting.words.wrap (row + 1) < UInt64.size := Nat.mod_lt _ (by decide)
    by_cases full : t.Full
    · obtain ⟨next, visits, full'⟩ := full.rowVisit source options row
        (t.columns row .words)
      exact ⟨full.lt_height low, next, visits, wrapped, .inl full'⟩
    · have ends := state.resolve_left full
      refine ⟨lt_height ((ends.rows row).2 (Nat.le_refl row)), ?_⟩
      have more : row + 1 < UInt64.size := by
        by_contra last
        exact full fun r inside => (ends.rows r).2 (by omega)
      obtain ⟨next, outcome, ran, ends'⟩ := ends.visit more first found again
      rw [ends.columns]
      refine ⟨next, fun now => ⟨now.absorb (.cell next.name row 0) outcome, ?_⟩, wrapped, .inr ?_⟩
      · rw [visitColumns, ran, Attempt.andThen_done, visitColumns]
      · rwa [Counting.counts_words_iff.2 more]
  obtain ⟨start, found', low⟩ := exists_firstRow ((ends.rows 0).2 (Nat.le_refl 0))
  obtain rfl := Nat.le_zero.1 low
  have never : s.walk (visitCollections source options false .words) false bound report .words =
      none := by
    rw [walk, found']
    exact walkFrom_eq_none (fun row t => row < UInt64.size ∧ (t.Full ∨ t.EndsIn text style row))
      step bound ⟨by decide, .inr ends⟩
  rw [fill, never]

end EndsIn

end Sheet

end Stencil
