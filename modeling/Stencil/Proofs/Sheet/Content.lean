import Stencil.Proofs.Sheet.Visit
import Stencil.Proofs.Sheet.Walk

/-! Expanding the collections of a sheet loses nothing that was on it. Each expansion moves rows
down and keeps their order, and so does the whole pass. -/

namespace Stencil

/-- One sheet holds the content of another, in rows that keep their order. Templates of
collections are not counted: they give way to what is written for them. -/
structure Relocated (rowOf : Nat → Nat) (s t : Sheet) : Prop where
  ascending : StrictMono rowOf
  rows : ∀ row, s.hasRow row = true → t.hasRow (rowOf row) = true
  cells : ∀ row column cell, s.cell? row column = some cell → cell.value.hasContent = true →
    cell.value.text?.any (hasPlaceholder .collection) = false →
      t.cell? (rowOf row) column = some cell

namespace Relocated

theorem refl (s : Sheet) : Relocated id s s where
  ascending := strictMono_id
  rows _ present := present
  cells _ _ _ held _ _ := held

theorem trans {f g : Nat → Nat} {s t u : Sheet} (first : Relocated f s t)
    (second : Relocated g t u) : Relocated (g ∘ f) s u where
  ascending := second.ascending.comp first.ascending
  rows row present := second.rows _ (first.rows row present)
  cells row column cell held content plain :=
    second.cells _ _ cell (first.cells row column cell held content plain) content plain

end Relocated

variable {source : Source} {options : FillOptions} {s : Sheet} {row column : Nat}
  {counting : Counting}

theorem Expanded.relocated (x : Expanded source options s row column counting) :
    Relocated x.rowOf s x.after where
  ascending := x.strictMono_rowOf
  rows _ present := x.hasRow_rowOf present
  cells r c cell held content plain := by
    refine x.kept held content ?_
    rintro ⟨rfl, rfl⟩
    obtain ⟨template, present, value⟩ := (Sheet.text?_eq_some_iff ..).1 x.holds
    rw [held] at present
    cases present
    rw [value, CellValue.text?, Option.any_some, hasPlaceholder_collection, x.first] at plain
    cases plain

theorem Visited.relocated {next : Sheet}
    (visited : Visited source options s row column counting next) :
    ∃ rowOf, Relocated rowOf s next := by
  cases visited with
  | quiet nothing => exact ⟨id, .refl s⟩
  | expanded x => exact ⟨x.rowOf, x.relocated⟩

/-- Where a pass has come to: if there was room for the rows that it has emitted and for some more,
there is room for these, and the content is still there. -/
structure Carried (counting : Counting) (s : Sheet) (report : Report) (t : Sheet) (now : Report) :
    Prop where
  later : report.rowsEmitted ≤ now.rowsEmitted
  kept : ∀ count, s.Room counting (now.rowsEmitted - report.rowsEmitted + count) →
    t.Room counting count ∧ ∃ rowOf, Relocated rowOf s t

namespace Carried

variable {t : Sheet} {report now : Report}

theorem start (counting : Counting) (s : Sheet) (report : Report) :
    Carried counting s report s report where
  later := Nat.le_refl _
  kept _ room := ⟨room.mono (Nat.le_add_left ..), id, .refl s⟩

theorem step (carried : Carried counting s report t now) (source : Source) (options : FillOptions)
    (row column : Nat) :
    ∃ next outcome, Sheet.visitCollections source options false counting t row column =
      .done next outcome ∧ ∀ location, Carried counting s report next (now.absorb location outcome) := by
  obtain ⟨next, ran⟩ := t.visitCollections_outcome source options row column counting
  have later := carried.later
  refine ⟨next, _, ran, fun location => ⟨Nat.le_add_right_of_le later, fun count room => ?_⟩⟩
  obtain ⟨below, f, before⟩ := carried.kept
    ((t.collectionOutcome source row column).rowsEmitted + count) (room.mono (by
      simp only [Report.absorb]
      omega))
  obtain ⟨next', outcome, same, visit⟩ :=
    visitCollections_cases_of_room options (below.mono (Nat.le_add_right _ count))
  cases ran.symm.trans same
  obtain ⟨g, after⟩ := visit.visited.relocated
  exact ⟨visit.room below, g ∘ f, before.trans after⟩

end Carried

/-- If the collection pass over a sheet ends, and there was room below the sheet for the rows that it
has emitted, the content of the sheet is found again in the same columns, with its values and
styles, and in rows that have kept their order. -/
theorem Sheet.collections_relocate_content (source : Source) (options : FillOptions) (s : Sheet)
    (bound : Nat) (report : Report) (outcome : Attempt Sheet Report) (counting : Counting)
    (ended : s.walk (visitCollections source options false counting) false bound report counting =
      some outcome)
    (room : ∀ last report', outcome = .done last report' →
      s.Room counting (report'.rowsEmitted - report.rowsEmitted)) :
    ∃ last report' rowOf, outcome = .done last report' ∧ Relocated rowOf s last := by
  have step : ∀ t row column now, Carried counting s report t now →
      ∃ next outcome, visitCollections source options false counting t row column =
        .done next outcome ∧
          Carried counting s report next (now.absorb (.cell next.name row column) outcome) := by
    intro t row column now carried
    obtain ⟨next, outcome, ran, after⟩ := carried.step source options row column
    exact ⟨next, outcome, ran, after _⟩
  obtain ⟨last, report', done, carried⟩ :=
    walk_holds (Carried counting s report) step (.start counting s report) ended
  obtain ⟨-, rowOf, relocated⟩ := carried.kept 0 (room last report' done)
  exact ⟨last, report', rowOf, done, relocated⟩

/-- A total below a list moves down with the list above it. -/
theorem total_relocated :
    ∃ outcome,
      (Sheet.ofTexts [(0, [(0, "[A]")]), (1, [(0, "Total")])]).walk
        (Sheet.visitCollections (.ofValue (.mapping [("A", .sequence [.text "x", .text "y"])])) {}
          false .words) false 3 {} .words = some outcome ∧
      (∀ last report', outcome = .done last report' →
        (Sheet.ofTexts [(0, [(0, "[A]")]), (1, [(0, "Total")])]).Room .words
          (report'.rowsEmitted - 0)) ∧
      ∃ last report' rowOf, outcome = .done last report' ∧
        Relocated rowOf (Sheet.ofTexts [(0, [(0, "[A]")]), (1, [(0, "Total")])]) last := by
  have ended : (Sheet.ofTexts [(0, [(0, "[A]")]), (1, [(0, "Total")])]).walk
      (Sheet.visitCollections (.ofValue (.mapping [("A", .sequence [.text "x", .text "y"])])) {}
        false .words) false 3 {} .words =
      some (.done (Sheet.ofTexts [(0, [(0, "x")]), (1, [(0, "y")]), (2, [(0, "Total")])])
        { collectionsExpanded := 1, rowsEmitted := 2 }) := by
    cbv
  have room : ∀ last report', Attempt.done
      (Sheet.ofTexts [(0, [(0, "x")]), (1, [(0, "y")]), (2, [(0, "Total")])])
        ({ collectionsExpanded := 1, rowsEmitted := 2 } : Report) = .done last report' →
      (Sheet.ofTexts [(0, [(0, "[A]")]), (1, [(0, "Total")])]).Room .words
        (report'.rowsEmitted - 0) := by
    intro last report' done
    cases done
    decide
  exact ⟨_, ended, room, Sheet.collections_relocate_content _ _ _ _ _ _ _ ended room⟩

end Stencil
