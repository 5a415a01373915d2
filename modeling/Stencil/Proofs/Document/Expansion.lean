import Stencil.Fill.TableExpansion
import Stencil.Proofs.Document.Agreement

/-! What the expansion of a table reads from the data. Only placeholders of the table as it was are
looked up: the rows that the expansion writes are behind it when it goes on. -/

namespace Stencil

private theorem drop_eraseIdx {α : Type} (xs : List α) {n m : Nat} (low : n ≤ m) :
    (xs.eraseIdx n).drop m = xs.drop (m + 1) := by
  apply List.ext_getElem?
  intro i
  rw [List.getElem?_drop, List.getElem?_drop, List.getElem?_eraseIdx_of_ge (by omega),
    Nat.add_right_comm]

private theorem drop_insertIdx {α : Type} (xs : List α) (n : Nat) (x : α) :
    (xs.insertIdx n x).drop (n + 1) = xs.drop n := by
  apply List.ext_getElem?
  intro i
  rw [List.getElem?_drop, List.getElem?_drop, List.getElem?_insertIdx_of_gt (by omega)]
  congr 1
  omega

namespace Table

variable {options : FillOptions}

theorem done_of_change {t changed : Table} {result : Except FillError Table} {u : Unit}
    (ran : t.change result = .done changed u) : result = .ok changed := by
  cases result with
  | error e => cases ran
  | ok other =>
      cases ran
      rfl

/-- What is behind a row that is written was behind the row in whose place it comes. -/
theorem emitRow_behind {t last : Table} {template target : Nat} {columns : List Nat}
    {values : List String} {u : Unit}
    (ran : t.emitRow template target columns values = .done last u) :
    last.rows.drop (target + 1) ⊆ t.rows.drop target := by
  unfold emitRow at ran
  obtain ⟨first, u', room, ran⟩ := Attempt.done_of_andThen ran
  obtain ⟨second, u'', cloned, ran⟩ := Attempt.done_of_andThen ran
  have freed : first.rows.drop target ⊆ t.rows.drop target := by
    split at room
    · have removed := done_of_change room
      unfold removeRow at removed
      split at removed
      · cases removed
        rw [drop_eraseIdx _ (Nat.le_refl target)]
        exact List.drop_subset_drop_left _ (Nat.le_succ target)
      · cases removed
    · cases room
      exact List.Subset.refl _
  have inserted : second.rows.drop (target + 1) = first.rows.drop target := by
    have copied := done_of_change cloned
    unfold cloneRow at copied
    split at copied
    · cases copied
    · split at copied
      · cases copied
        exact drop_insertIdx ..
      · cases copied
  split at ran
  · cases ran
  · obtain ⟨row, rfl⟩ := Attempt.done_of_within ran
    rw [List.drop_set_of_lt (Nat.lt_succ_self target), inserted]
    exact freed

theorem emitRows_behind {template : Nat} {columns : List Nat} {steps : Nat}
    {cursors rest : List ColumnCursor} {emitted total : Nat} {t last : Table}
    (ran : emitRows options false template columns steps cursors emitted t =
      .done last (total, rest)) :
    last.rows.drop (template + 1 + total) ⊆ t.rows.drop (template + 1 + emitted) := by
  induction steps generalizing cursors emitted t with
  | zero =>
      cases ran
      exact List.Subset.refl _
  | succ steps ih =>
      rw [emitRows] at ran
      split at ran
      · cases ran
        exact List.Subset.refl _
      · rw [if_neg Bool.false_ne_true] at ran
        obtain ⟨middle, u, wrote, ran⟩ := Attempt.done_of_andThen ran
        exact List.Subset.trans (ih ran) (emitRow_behind wrote)

variable {first second : Source}

/-- Sources that find the same items for the rows that are left expand them alike. -/
theorem expandFrom_congr {steps index : Nat} {t : Table}
    (same : ∀ row ∈ t.rows.drop index,
      TableRow.cursorsFrom first 0 row.cells = TableRow.cursorsFrom second 0 row.cells)
    (outcome : Outcome) :
    expandFrom first options false steps index outcome t =
      expandFrom second options false steps index outcome t := by
  induction steps generalizing index t outcome with
  | zero => rfl
  | succ steps ih =>
      rw [expandFrom, expandFrom]
      cases present : t.rows[index]? with
      | none => rfl
      | some row =>
          have here : row ∈ t.rows.drop index := by
            apply List.mem_of_getElem? (i := 0)
            rw [List.getElem?_drop, Nat.add_zero, present]
          dsimp only
          rw [if_neg Bool.false_ne_true, if_neg Bool.false_ne_true, same row here]
          split
          · apply ih
            exact fun other later =>
              same other (List.drop_subset_drop_left _ (Nat.le_succ index) later)
          · apply Attempt.andThen_congr rfl
            intro middle (emitted, cursors) wrote
            apply Attempt.andThen_congr rfl
            intro last u removed
            have behind := emitRows_behind wrote
            have gone := done_of_change removed
            unfold removeRow at gone
            split at gone
            · cases gone
              apply ih
              intro other later
              rw [drop_eraseIdx _ (Nat.le_add_right index emitted), Nat.add_right_comm] at later
              exact same other (List.drop_subset_drop_left _ (Nat.le_succ index) (behind later))
            · cases gone

end Table

/-! ### Where the placeholders of a document stand -/

theorem TableCell.placeholders_subset {cell : TableCell} {p : Paragraph}
    (member : p ∈ cell.paragraphs) (location : Location) :
    placeholdersIn p.text location ⊆ cell.placeholders location :=
  fun _ inText => List.mem_flatMap.2 ⟨p, member, inText⟩

theorem Table.placeholders_subset {t : Table} {row : TableRow} {cell : TableCell} {r c : Nat}
    (inTable : t.rows[r]? = some row) (inRow : row.cells[c]? = some cell) (part : Part)
    (index : Nat) :
    cell.placeholders (.tableCell part index r c) ⊆ t.placeholders part index := by
  intro use member
  refine List.mem_flatMap.2 ⟨(row, r), List.mem_zipIdx_iff_getElem?.2 inTable, ?_⟩
  exact List.mem_flatMap.2 ⟨(cell, c), List.mem_zipIdx_iff_getElem?.2 inRow, member⟩

variable {first second : Source} {options : FillOptions}

/-! ### Expanding a table -/

theorem TableCell.items?_eq {cell : TableCell} {location : Location} {use : CollectionUse}
    (agree : Source.AgreeOn .collection first second (cell.placeholders location))
    (found : cell.firstCollection? = some use) :
    first.items? use.collection = second.items? use.collection := by
  obtain ⟨p, member, inText⟩ := List.exists_of_findSome?_eq_some found
  obtain ⟨o, occurs, path⟩ := exists_occurrence_of_firstCollection? inText
  rw [← path]
  exact ((agree.of_subset (placeholders_subset member location)).at_occurrence occurs).items?_eq

theorem TableRow.cursorsFrom_congr {column : Nat} {cells : List TableCell}
    (same : ∀ cell ∈ cells, ∀ use, cell.firstCollection? = some use →
      first.items? use.collection = second.items? use.collection) :
    cursorsFrom first column cells = cursorsFrom second column cells := by
  induction cells generalizing column with
  | nil => rfl
  | cons cell rest ih =>
      have others : cursorsFrom first (column + 1) rest = cursorsFrom second (column + 1) rest :=
        ih fun other member => same other (List.mem_cons_of_mem _ member)
      rw [cursorsFrom, cursorsFrom, others]
      cases found : cell.firstCollection? with
      | none => rfl
      | some use => simp only [same cell (List.mem_cons_self ..) use found]

/-- Sources that agree on the collections of a table expand it alike. -/
theorem Table.expand_congr {t : Table} {part : Part} {index : Nat}
    (agree : Source.AgreeOn .collection first second (t.placeholders part index)) :
    t.expand first options false = t.expand second options false := by
  apply expandFrom_congr
  intro row member
  obtain ⟨r, inTable⟩ := List.mem_iff_getElem?.1 (List.mem_of_mem_drop member)
  apply TableRow.cursorsFrom_congr
  intro cell inRow use found
  obtain ⟨c, at_⟩ := List.mem_iff_getElem?.1 inRow
  exact TableCell.items?_eq
    (agree.of_subset (placeholders_subset inTable at_ part index)) found

end Stencil
