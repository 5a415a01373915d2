import Stencil.Fill.Workbook
import Stencil.Proofs.Report
import Stencil.Proofs.Sheet.Cells

/-! What the scalar pass does at a cell: the value that it writes and what it reports are functions
of the text of the cell. -/

namespace Stencil

/-- The value that the placeholders of a text are exchanged for, none where nothing resolves. -/
def Source.filledValue? (source : Source) (options : FillOptions) (text : String) :
    Option CellValue :=
  if (classify .scalar text).isSinglePlaceholder then
    ((scalarPath? text).bind source.get?).map (Resolved.toCell options)
  else
    let replaced := replaceScalars source options (pieces .scalar text.toList)
    if 0 < replaced.2.filled then some (.text (String.ofList replaced.1)) else none

/-- A cell after the scalar pass. -/
def Cell.refilled (source : Source) (options : FillOptions) (cell : Cell) : Cell :=
  { cell with value := (cell.value.text?.bind (source.filledValue? options)).getD cell.value }

variable {source : Source} {options : FillOptions}

theorem replaceScalars_outcome {found : List Piece}
    (good : ∀ p, .placeholder p ∈ found → p.kind = .scalar) :
    (replaceScalars source options found).2 =
      source.outcomeOf (found.filterMap Piece.placeholder?) := by
  induction found with
  | nil => rfl
  | cons piece rest ih =>
      have others := ih fun p member => good p (List.mem_cons_of_mem _ member)
      cases piece with
      | plain c => exact others
      | placeholder p =>
          cases p with
          | collection path property => cases good _ (List.mem_cons_self ..)
          | scalar path =>
              change _ = source.outcomeOf (.scalar path :: rest.filterMap Piece.placeholder?)
              cases found : source.get? (String.ofList path) with
              | none =>
                  rw [Source.outcomeOf_cons_of_none (p := .scalar path) found, ← others]
                  simp only [replaceScalars, found]
              | some value =>
                  rw [Source.outcomeOf_cons_of_some (p := .scalar path) found, ← others]
                  simp only [replaceScalars, found]

theorem replaceScalars_pieces (source : Source) (options : FillOptions) (text : String) :
    (replaceScalars source options (pieces .scalar text.toList)).2 =
      source.outcomeOf (placeholdersOf .scalar text) :=
  replaceScalars_outcome fun _ member => (wellFormed_of_mem_pieces member).1

/-- A text that is one placeholder takes the value as it is. -/
theorem Source.filledValue?_text (source : Source) (options : FillOptions) {p : Placeholder}
    (good : p.WellFormed) (kind : p.kind = .scalar) :
    source.filledValue? options (String.ofList p.text) =
      (source.get? p.path).map (Resolved.toCell options) := by
  have single := isSinglePlaceholder_text good
  rw [kind] at single
  rw [filledValue?, if_pos single, scalarPath?_of_kind good kind, Option.bind_some]

theorem Source.filledValue?_of_none {text : String}
    (absent : hasPlaceholder .scalar text = false) : source.filledValue? options text = none := by
  have nothing := placeholdersOf_eq_nil_iff.2 absent
  have several : ¬(classify .scalar text).isSinglePlaceholder = true := by
    intro single
    obtain ⟨p, kind, good, rfl⟩ := exists_of_isSinglePlaceholder single
    rw [← kind, placeholdersOf_text good] at nothing
    cases nothing
  rw [filledValue?, if_neg several]
  dsimp only
  rw [replaceScalars_pieces, nothing, Source.outcomeOf_nil, if_neg (by decide)]

namespace Sheet

variable (source options) in
/-- The sheet after the scalar pass has visited a cell. -/
def refilled (s : Sheet) (row column : Nat) : Sheet :=
  ((s.text? row column).bind (source.filledValue? options)).elim s (s.setValue row column)

/-- What the scalar pass reports for a text. -/
def scalarOutcome (source : Source) (s : Sheet) (row column : Nat) : Outcome :=
  (s.text? row column).elim {} fun text => source.outcomeOf (placeholdersOf .scalar text)

theorem fillScalarsAt_of_none {s : Sheet} {row column : Nat}
    (absent : s.hasScalarsAt row column = false) :
    s.fillScalarsAt source options row column = .done s {} := by
  unfold fillScalarsAt
  cases held : s.text? row column with
  | none => rfl
  | some text =>
      rw [hasScalarsAt, held, Option.any_some] at absent
      simp only [isMatch_classify, absent, Bool.not_false, if_true]

theorem fillScalarsAt_eq (source : Source) (options : FillOptions) (s : Sheet) (row column : Nat) :
    s.fillScalarsAt source options row column =
      .done (s.refilled source options row column) (s.scalarOutcome source row column) := by
  unfold refilled scalarOutcome
  cases held : s.text? row column with
  | none => simp only [fillScalarsAt, held]; rfl
  | some text =>
      rw [Option.bind_some, Option.elim_some]
      by_cases absent : hasPlaceholder .scalar text = false
      · rw [fillScalarsAt_of_none (by rw [hasScalarsAt, held]; exact absent),
          placeholdersOf_eq_nil_iff.2 absent, Source.filledValue?_of_none absent]
        rfl
      rw [Bool.not_eq_false] at absent
      simp only [absent, fillScalarsAt, held, isMatch_classify, Bool.not_true,
        Bool.false_eq_true, if_false, Source.filledValue?]
      by_cases single : (classify .scalar text).isSinglePlaceholder = true
      · obtain ⟨p, kind, good, rfl⟩ := exists_of_isSinglePlaceholder single
        have only : placeholdersOf .scalar (String.ofList p.text) = [p] := by
          rw [← kind, placeholdersOf_text good]
        rw [if_pos single, if_pos single, scalarPath?_of_kind good kind, Option.bind_some, only]
        cases found : source.get? p.path with
        | none => rw [Source.outcomeOf_cons_of_none found]; rfl
        | some value => rw [Source.outcomeOf_cons_of_some found]; rfl
      · rw [if_neg single, if_neg single, replaceScalars_pieces]
        split <;> rfl

theorem visitScalars_eq (source : Source) (options : FillOptions) (s : Sheet) (row column : Nat) :
    visitScalars source options s row column =
      .done (s.refilled source options row column) (s.scalarOutcome source row column) := by
  rw [visitScalars, ← fillScalarsAt_eq]
  cases present : s.hasScalarsAt row column with
  | false => rw [if_neg Bool.false_ne_true, fillScalarsAt_of_none present]
  | true => rw [if_pos rfl]

theorem name_refilled (s : Sheet) (row column : Nat) :
    (s.refilled source options row column).name = s.name := by
  unfold refilled
  cases (s.text? row column).bind (source.filledValue? options) <;> rfl

theorem merged_refilled (s : Sheet) (row column : Nat) :
    (s.refilled source options row column).merged = s.merged := by
  unfold refilled
  cases (s.text? row column).bind (source.filledValue? options) <;> rfl

theorem hasRow_refilled (s : Sheet) (row column r : Nat) :
    (s.refilled source options row column).hasRow r = s.hasRow r := by
  unfold refilled
  cases held : s.text? row column with
  | none => rfl
  | some text =>
      obtain ⟨cell, present, -⟩ := (text?_eq_some_iff ..).1 held
      rw [Option.bind_some]
      cases source.filledValue? options text with
      | none => rfl
      | some value => exact hasRow_setValue (hasRow_of_cell? present) ..

theorem cell?_refilled {s : Sheet} {row column r c : Nat} (other : ¬(r = row ∧ c = column)) :
    (s.refilled source options row column).cell? r c = s.cell? r c := by
  unfold refilled
  cases (s.text? row column).bind (source.filledValue? options) with
  | none => rfl
  | some value => exact cell?_setValue_of_ne s value other

theorem cell?_refilled_self (s : Sheet) (row column : Nat) :
    (s.refilled source options row column).cell? row column =
      (s.cell? row column).map (Cell.refilled source options) := by
  cases held : s.cell? row column with
  | none =>
      have untouched : s.refilled source options row column = s := by
        rw [refilled, text?, value?, held]
        rfl
      rw [untouched, held, Option.map_none]
  | some cell =>
      have shown : s.text? row column = cell.value.text? := by rw [text?, value?, held]; rfl
      rw [Option.map_some, refilled, shown, Cell.refilled]
      cases cell.value.text?.bind (source.filledValue? options) with
      | none => exact held
      | some value =>
          rw [Option.elim_some, setValue, cell?_updateCell, if_pos ⟨rfl, rfl⟩, held]
          rfl

theorem row_refilled {s : Sheet} {row column r : Nat} (other : r ≠ row) :
    (s.refilled source options row column).rows.get? r = s.rows.get? r := by
  unfold refilled
  cases (s.text? row column).bind (source.filledValue? options) with
  | none => rfl
  | some value => rw [Option.elim_some, setValue, row_updateCell, if_neg other]

end Sheet

end Stencil
