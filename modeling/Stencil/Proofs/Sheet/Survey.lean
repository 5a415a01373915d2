import Stencil.Fill.Survey
import Stencil.Proofs.Sheet.Scalars
import Stencil.Proofs.Sheet.Sweep

/-! A survey of a sheet in parts: the cells of a row that a walk has still to visit, and the rows
below it. The scalar pass reports on these as the survey lists them. -/

namespace Stencil

namespace Sheet

variable {s t : Sheet} {row column : Nat}

/-- The placeholders of a cell. -/
def usesAt (s : Sheet) (row column : Nat) : List PlaceholderUse :=
  match s.text? row column with
  | some text => placeholdersIn text (.cell s.name row column)
  | none => []

/-- The placeholders in some columns of a row. -/
def usesIn (s : Sheet) (row : Nat) (columns : List Nat) : List PlaceholderUse :=
  columns.flatMap (s.usesAt row)

/-- The placeholders in the rows from `row` on. -/
def usesFrom (s : Sheet) (row : Nat) : List PlaceholderUse :=
  (List.range' row (s.height - row)).flatMap fun r => s.usesIn r (s.columns r)

theorem usesFrom_eq (s : Sheet) (row : Nat) :
    s.usesFrom row = s.usesIn row (s.columns row) ++ s.usesFrom (row + 1) := by
  rcases Nat.lt_or_ge row s.height with high | low
  · have rows : s.height - row = s.height - (row + 1) + 1 := by omega
    rw [usesFrom, rows, List.range'_succ, List.flatMap_cons, usesFrom]
  · have none : s.height - row = 0 := by omega
    have none' : s.height - (row + 1) = 0 := by omega
    rw [usesFrom, none, usesFrom, none', columns_eq_nil (absent_of_height_le low)]
    rfl

theorem usesFrom_of_height_le (low : s.height ≤ row) : s.usesFrom row = [] := by
  rw [usesFrom, Nat.sub_eq_zero_of_le low]
  rfl

theorem usesFrom_of_absent {start : Nat} (low : row ≤ start)
    (absent : ∀ r, row ≤ r → r < start → s.rows.get? r = none) :
    s.usesFrom row = s.usesFrom start := by
  induction low with
  | refl => rfl
  | @step start low ih =>
      have here := absent start low (Nat.lt_succ_self start)
      rw [ih fun r above below => absent r above (Nat.lt_succ_of_lt below), usesFrom_eq,
        columns_eq_nil here]
      rfl

/-- A survey begins at any row that nothing is above. -/
theorem placeholders_eq_usesFrom (above : ∀ r, s.hasRow r = true → row ≤ r) :
    s.placeholders = s.usesFrom row := by
  unfold placeholders
  cases first : s.firstRow? with
  | none =>
      have empty : ∀ r, s.rows.get? r = none := by
        intro r
        cases present : s.rows.get? r with
        | none => rfl
        | some cells =>
            have there : s.hasRow r = true := by rw [hasRow_eq_isSome, present]; rfl
            obtain ⟨start, found, -⟩ := exists_firstRow there
            cases first.symm.trans found
      have past := s.usesFrom_of_absent (Nat.le_max_left row s.height) fun r _ _ => empty r
      rw [past, usesFrom_of_height_le (Nat.le_max_right ..)]
  | some start =>
      obtain ⟨present, least⟩ := (Sparse.firstIndex?_eq_some_iff ..).1 first
      cases last : s.lastRow? with
      | none =>
          have high := lt_height present
          rw [height, last] at high
          cases high
      | some top =>
          have absent : ∀ r, row ≤ r → r < start → s.rows.get? r = none := by
            intro r _ before
            by_contra there
            exact Nat.not_le.2 before (least (Option.isSome_iff_ne_none.2 there))
          rw [s.usesFrom_of_absent (above start present) absent, usesFrom, height, last]
          rfl

/-! ### Walks that leave the rows where they are -/

/-- What a walk has still to visit is as it was. -/
structure Unvisited (s : Sheet) (row : Nat) (columns : List Nat) (t : Sheet) : Prop where
  name : t.name = s.name
  rows : ∀ r, t.hasRow r = s.hasRow r
  below : ∀ r, row < r → t.rows.get? r = s.rows.get? r
  ahead : ∀ column ∈ columns, t.cell? row column = s.cell? row column
  ascending : columns.Pairwise (· < ·)

namespace Unvisited

variable {columns rest : List Nat} {source : Source} {options : FillOptions}

theorem refl (s : Sheet) (row : Nat) : Unvisited s row (s.columns row) s where
  name := rfl
  rows _ := rfl
  below _ _ := rfl
  ahead _ _ := rfl
  ascending := columns_ascending s row

theorem next (unvisited : Unvisited s row [] t) :
    Unvisited s (row + 1) (t.columns (row + 1)) t where
  name := unvisited.name
  rows := unvisited.rows
  below r low := unvisited.below r (Nat.lt_of_succ_lt low)
  ahead column _ := cell?_congr (unvisited.below (row + 1) (Nat.lt_succ_self row)) column
  ascending := columns_ascending t (row + 1)

theorem columns_eq (unvisited : Unvisited s row [] t) : t.columns (row + 1) = s.columns (row + 1) := by
  rw [columns, columnBounds, unvisited.below (row + 1) (Nat.lt_succ_self row), columns, columnBounds]

theorem refilled (unvisited : Unvisited s row (column :: rest) t) :
    Unvisited s row rest (t.refilled source options row column) where
  name := (name_refilled ..).trans unvisited.name
  rows r := (hasRow_refilled ..).trans (unvisited.rows r)
  below r low := (row_refilled (Nat.ne_of_gt low)).trans (unvisited.below r low)
  ahead c member := by
    have apart : column < c := (List.pairwise_cons.1 unvisited.ascending).1 c member
    rw [cell?_refilled (by omega)]
    exact unvisited.ahead c (List.mem_cons_of_mem _ member)
  ascending := (List.pairwise_cons.1 unvisited.ascending).2

theorem text?_eq (unvisited : Unvisited s row (column :: rest) t) :
    t.text? row column = s.text? row column :=
  text?_congr (unvisited.ahead column (List.mem_cons_self ..))

end Unvisited

theorem absorb_scalarOutcome (source : Source) (s : Sheet) (row column : Nat) (report : Report) :
    report.absorb (.cell s.name row column) (s.scalarOutcome source row column) =
      report.merge (source.reportOn (s.usesAt row column)) := by
  unfold scalarOutcome usesAt
  cases s.text? row column with
  | none => exact (report.absorb_empty _).trans report.merge_empty.symm
  | some text => exact report.absorb_outcomeOf source text _

/-- What was reported and what is still to be visited come to the report on the whole sheet, and the
cells that were visited are as the scalar pass leaves them. -/
structure Accounted (source : Source) (options : FillOptions) (s : Sheet) (start : Report)
    (row : Nat) (columns : List Nat) (t : Sheet) (report : Report) : Prop
    extends Unvisited s row columns t where
  total : report.merge (source.reportOn (s.usesIn row columns ++ s.usesFrom (row + 1))) =
    start.merge (source.reportOn s.placeholders)
  behind : ∀ r c, ¬Ahead row columns r c →
    t.cell? r c = (s.cell? r c).map (Cell.refilled source options)

namespace Accounted

variable {source : Source} {options : FillOptions} {start report : Report}
  {columns rest : List Nat}

theorem refl (above : ∀ r, s.hasRow r = true → row ≤ r) (start : Report) :
    Accounted source options s start row (s.columns row) s start where
  toUnvisited := .refl s row
  total := by rw [← usesFrom_eq, placeholders_eq_usesFrom above]
  behind r c passed := by
    cases held : s.cell? r c with
    | none => rfl
    | some cell => exact absurd (.start above held) passed

theorem next (accounted : Accounted source options s start row [] t report) :
    Accounted source options s start (row + 1) (t.columns (row + 1)) t report where
  toUnvisited := accounted.toUnvisited.next
  total := by
    rw [accounted.columns_eq, ← usesFrom_eq]
    exact accounted.total
  behind r c passed := by
    by_cases below : row < r
    · have same : t.cell? r c = s.cell? r c := cell?_congr (accounted.below r below) c
      cases held : t.cell? r c with
      | none => rw [← same, held, Option.map_none]
      | some cell => exact absurd (Ahead.next (.inl below) held) passed
    · exact accounted.behind r c fun ahead =>
        ahead.elim below fun inRow => by cases inRow.2

theorem refilled (accounted : Accounted source options s start row (column :: rest) t report) :
    Accounted source options s start row rest (t.refilled source options row column)
      (report.absorb (.cell (t.refilled source options row column).name row column)
        (t.scalarOutcome source row column)) where
  toUnvisited := accounted.toUnvisited.refilled
  total := by
    have same : t.scalarOutcome source row column = s.scalarOutcome source row column := by
      rw [scalarOutcome, accounted.text?_eq, scalarOutcome]
    rw [name_refilled, accounted.name, same, absorb_scalarOutcome, Report.merge_assoc,
      ← Source.reportOn_append, ← List.append_assoc]
    exact accounted.total
  behind r c passed := by
    by_cases here : r = row ∧ c = column
    · obtain ⟨rfl, rfl⟩ := here
      rw [cell?_refilled_self, accounted.ahead c (List.mem_cons_self ..)]
    · rw [cell?_refilled here]
      exact accounted.behind r c fun ahead => passed (ahead.here_or.resolve_left here)

end Accounted

/-- The scalar pass visits every cell of a sheet once, and it reports on every placeholder. -/
theorem walk_scalars_reports {source : Source} {options : FillOptions} {bound : Nat}
    {report : Report} {outcome : Attempt Sheet Report}
    (ended : s.walk (visitScalars source options) false bound report = some outcome) :
    ∃ last, outcome = .done last (report.merge (source.reportOn s.placeholders)) ∧
      last.name = s.name ∧
      ∀ r c, last.cell? r c = (s.cell? r c).map (Cell.refilled source options) := by
  obtain ⟨last, report', behind, done, past, accounted⟩ :=
    walk_reports (Accounted source options s report)
      (fun _ _ _ _ _ accounted => ⟨_, _, visitScalars_eq .., accounted.refilled⟩)
      (fun _ _ _ accounted => accounted.next) (fun _ above => .refl above report) ended
  have low : s.height ≤ behind := by rwa [← height_congr accounted.rows]
  have all := accounted.total
  rw [columns_eq_nil (absent_of_height_le past), usesFrom_of_height_le (Nat.le_succ_of_le low)]
    at all
  have nothing : report'.merge (source.reportOn (s.usesIn behind [] ++ [])) = report' :=
    report'.merge_empty
  rw [nothing] at all
  refine ⟨last, by rw [done, all], accounted.name, ?_⟩
  intro r c
  by_cases below : behind < r
  · have absent : s.rows.get? r = none := absent_of_height_le (by omega)
    rw [cell?_congr (accounted.below r below), cell?, absent]
    rfl
  · apply accounted.behind
    rw [columns_eq_nil (absent_of_height_le past)]
    exact fun ahead => ahead.elim below fun inRow => by cases inRow.2

/-! ### Sheets of texts that expand at most once -/

variable {source : Source} {options : FillOptions}

/-- On a sheet of texts that expand at most once a fill ends, also in machine words if there is
headroom for the items, and there is still a number behind the last row. -/
theorem fill_ends_of_shallow
    (shallow : ∀ r c text, s.text? r c = some text → source.Shallow options text)
    (report : Report) :
    ∃ enough last report', ∀ counting, s.Headroom counting (s.itemCount source) →
      (∀ bound ≥ enough,
        s.fill source options false bound report counting = some (.done last report')) ∧
      last.Headroom counting 0 := by
  obtain ⟨first, middle, between, count, collections⟩ :=
    walk_collections_ends_of_shallow shallow report
  obtain ⟨second, last, report', scalars⟩ := walk_scalars_ends source options middle between
  have total : report.rowsEmitted + s.itemCount source = report'.rowsEmitted + 0 := by
    obtain ⟨_, done, -⟩ := walk_scalars_reports (scalars second (Nat.le_refl second))
    cases done
    exact count.symm
  have ends : ∀ bound ≥ max first second,
      s.fill source options false bound report = some (.done last report') := by
    intro bound large
    exact fill_eq_done_iff.2 ⟨middle, between,
      collections .endless (s.headroom_endless _) bound (by omega), scalars bound (by omega)⟩
  refine ⟨max first second, last, report', fun counting headroom => ⟨fun bound large => ?_, ?_⟩⟩
  · exact (fill_counted_iff headroom total).1.2 (ends bound large)
  · exact (fill_counted_iff headroom total).2 (ends _ (Nat.le_refl _))

/-! ### Sheets without collections -/

/-- No text of the sheet asks for a collection. -/
def Plain (s : Sheet) : Prop :=
  ∀ row column text, s.text? row column = some text → hasPlaceholder .collection text = false

theorem Plain.visit (plain : s.Plain) (row column : Nat) (counting : Counting) :
    visitCollections source options false counting s row column = .done s {} := by
  unfold visitCollections hasCollectionAt
  cases held : s.text? row column with
  | none => rfl
  | some text => rw [Option.any_some, plain row column text held, if_neg Bool.false_ne_true]

theorem Plain.settled (plain : s.Plain) : s.SettledThroughout source options := by
  intro row column text held
  apply Source.Shallow.settlesThroughout
  have absent := plain row column text held
  rw [hasPlaceholder_collection, Option.isSome_eq_false_iff, Option.isNone_iff_eq_none] at absent
  exact .of_nothing (Source.written_of_none absent)

theorem Plain.walk {bound : Nat} {report : Report} {outcome : Attempt Sheet Report}
    (plain : s.Plain)
    (ended : s.walk (visitCollections source options false) false bound report = some outcome) :
    outcome = .done s report := by
  have visits : ∀ row column (rest : List Nat) t now, t = s ∧ now = report →
      ∃ next found, visitCollections source options false .endless t row column = .done next found ∧
        next = s ∧ now.absorb (.cell next.name row column) found = report := by
    rintro row column rest t now ⟨rfl, rfl⟩
    exact ⟨t, {}, plain.visit row column .endless, rfl, now.absorb_empty _⟩
  obtain ⟨last, report', behind, done, -, rfl, rfl⟩ := walk_reports
    (fun _ _ t now => t = s ∧ now = report) visits (fun _ _ _ same => same)
    (fun _ _ => ⟨rfl, rfl⟩) ended
  exact done

/-- Filling a sheet without collections comes to the report on its survey. -/
theorem Plain.fill (plain : s.Plain) (source : Source) (options : FillOptions) (report : Report) :
    ∃ enough last, ∀ bound ≥ enough, s.fill source options false bound report =
      some (.done last (report.merge (source.reportOn s.placeholders))) := by
  have settled : s.SettledThroughout source options := plain.settled
  obtain ⟨enough, last, report', ends⟩ := fill_ends settled.onWalk report
  obtain ⟨middle, between, collections, scalars⟩ :=
    fill_eq_done_iff.1 (ends enough (Nat.le_refl enough))
  cases plain.walk collections
  obtain ⟨same, done, -⟩ := walk_scalars_reports scalars
  cases done
  exact ⟨enough, last, ends⟩

/-- Behind a row in the last place a walk begins anew from zero. -/
theorem Plain.fill_eq_none (plain : s.Plain) (present : s.hasRow (UInt64.size - 1) = true)
    (source : Source) (options : FillOptions) (bound : Nat) (report : Report) : s.fill source options false bound report .words = none := by
  have high := lt_height present
  have step : ∀ row t, t = s ∧ row < UInt64.size → row < t.height ∧
      ∃ next, RowVisit (visitCollections source options false .words) row (t.columns row .words)
        t next ∧ next = s ∧ Counting.words.wrap (row + 1) < UInt64.size := by
    rintro row t ⟨rfl, low⟩
    obtain ⟨next, visits, same⟩ := rowVisit_of_step (fun _ u => u = t)
      (fun column _ u same => ⟨u, {}, same ▸ plain.visit row column .words, same⟩)
      (t.columns row .words) rfl
    exact ⟨by omega, next, visits, same, Nat.mod_lt _ (by decide)⟩
  obtain ⟨first, start, low⟩ := exists_firstRow present
  have never : s.walk (visitCollections source options false .words) false bound report .words =
      none := by
    rw [Sheet.walk, start]
    exact walkFrom_eq_none (fun row t => t = s ∧ row < UInt64.size) step bound
      ⟨rfl, Nat.lt_of_le_of_lt low (by decide)⟩
  rw [Sheet.fill, never]

end Sheet

end Stencil
