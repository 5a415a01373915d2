import Mathlib
import Stencil.Proofs.Document.Rows
import Stencil.Proofs.Document.Survey

/-! Filling a document comes to its end without an error, whatever is in it and whatever the data
holds. No loop is cut short for that: with more steps the expansion of a table comes to the same. -/

namespace Stencil

open Attempt

theorem Attempt.Reports.completes {σ : Type} {a : Attempt σ Report} {report : Report}
    (reports : a.Reports report) : a.Completes := by
  obtain ⟨target, ran⟩ := reports
  exact ⟨target, report, ran⟩

/-- The walk over the rows of a table gets to the last of them in as many steps as there are
rows. -/
theorem Table.expandFrom_of_le (source : Source) (options : FillOptions) {t : Table} {steps : Nat}
    (enough : t.rows.length ≤ steps) :
    expandFrom source options false steps 0 {} t = t.expand source options false := by
  have few := expandFrom_eq source options [] t.rows (Nat.le_refl _) {}
  have many := expandFrom_eq source options [] t.rows enough {}
  exact many.trans few.symm

namespace FlowPass

variable {source : Source} {options : FillOptions}

theorem fillTable_completes (part : Part) (expand : Bool) (index : Nat) (t : Table)
    (report : Report) :
    (fillTable ⟨source, options, false⟩ part expand index t report).Completes := by
  unfold fillTable
  rw [if_neg Bool.false_ne_true]
  apply Completes.andThen
  · split
    · unfold expandTable
      split
      · exact Completes.mapResult ⟨_, _, t.expand_eq source options⟩ _
      · exact ⟨t, report, rfl⟩
    · exact ⟨t, report, rfl⟩
  · exact fun expanded carried => (fillTableCells_reports part index expanded carried).completes

theorem fillPart_completes (part : Part) (expand : Bool) (body : Body) (report : Report) :
    (fillPart ⟨source, options, false⟩ part expand body report).Completes := by
  unfold fillPart
  apply Completes.andThen
  · apply Completes.within
    apply each_completes
    intro index p carried
    rw [if_neg Bool.false_ne_true]
    exact (fillParagraph_reports (.paragraph part index) p carried).completes
  · intro middle carried
    exact (each_completes (fillTable_completes part expand) middle.tables carried).within _

theorem fillParts_completes (part : Nat → Part) (bodies : List Body) (report : Report) :
    (fillParts ⟨source, options, false⟩ part bodies report).Completes :=
  each_completes (fun index => fillPart_completes (part index) _) bodies report

end FlowPass

theorem Document.fill_done (source : Source) (options : FillOptions) (d : Document) :
    (d.fill source options false).Completes := by
  unfold fill
  apply Completes.andThen
  · apply Completes.andThen
    · exact (FlowPass.fillPart_completes .body true d.body {}).within _
    · intro middle report
      split
      · exact (FlowPass.fillParts_completes .header middle.headers report).within _
      · exact ⟨middle, report, rfl⟩
  · intro middle report
    split
    · exact (FlowPass.fillParts_completes .footer middle.footers report).within _
    · exact ⟨middle, report, rfl⟩

/-- Filling a document that is not called off gives a filled document and a report, with any data
below any path and with any options. The loops that expand its tables come to their own end: they
give the same with every larger number of steps. -/
theorem Document.fill_completes (source : Source) (options : FillOptions) (d : Document) :
    (∃ filled report, d.fill source options false = .done filled report) ∧
    (∀ (t : Table) (steps : Nat), t.rows.length ≤ steps →
      Table.expandFrom source options false steps 0 {} t = t.expand source options false) ∧
    ∀ (template : Nat) (columns : List Nat) (cursors : List ColumnCursor) (emitted : Nat)
      (t : Table) (steps : Nat), ColumnCursor.longest cursors ≤ steps →
      Table.emitRows options false template columns steps cursors emitted t =
        Table.emitRows options false template columns (ColumnCursor.longest cursors) cursors
          emitted t := by
  refine ⟨d.fill_done source options, fun t steps => Table.expandFrom_of_le source options, ?_⟩
  intro template columns cursors emitted t steps enough
  exact Table.emitRows_of_longest_le (Nat.le_refl _) enough emitted t

/-- Two lists side by side, the first of them cut into two runs. -/
def pairs : Table :=
  ⟨[⟨[{ paragraphs := [⟨[{ text := "[Gue" }, { text := "sts]" }]⟩] },
      { paragraphs := [⟨[{ text := "[Hosts]" }]⟩] }]⟩]⟩

/-- More guests than hosts. -/
def company : Source :=
  .ofValue (.mapping [("Guests", .sequence [.text "Ann", .text "Bob"]),
    ("Hosts", .sequence [.text "Eve"])])

/-- The first column of the pairs. -/
def guestColumn : ColumnCursor := ⟨0, "[Guests]", none, [.text "Ann", .text "Bob"], false⟩

/-- The second guest is left without a host. -/
theorem pairs_fill_completes :
    (∃ filled report, ({ body := { tables := [pairs] } } : Document).fill company {} false =
      .done filled report) ∧
    (pairs.rows.length ≤ 9 ∧
      Table.expandFrom company {} false 9 0 {} pairs = pairs.expand company {} false) ∧
    (ColumnCursor.longest [guestColumn] ≤ 7 ∧
      Table.emitRows {} false 0 [0] 7 [guestColumn] 0 pairs =
        Table.emitRows {} false 0 [0] (ColumnCursor.longest [guestColumn]) [guestColumn] 0 pairs) ∧
    (({ body := { tables := [pairs] } } : Document).fill company {} false).target.body.tables.map
      Table.texts = [[["Ann", "Eve"], ["Bob", ""]]] := by
  have fills := Document.fill_completes company {} { body := { tables := [pairs] } }
  have few : pairs.rows.length ≤ 9 := by decide
  have short : ColumnCursor.longest [guestColumn] ≤ 7 := by decide
  refine ⟨fills.1, ⟨few, fills.2.1 pairs 9 few⟩, ⟨short, ?_⟩, by cbv⟩
  exact fills.2.2 0 [0] [guestColumn] 0 pairs 7 short

end Stencil
