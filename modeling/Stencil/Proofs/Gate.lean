import Stencil.Fill.Document
import Stencil.Proofs.Document.ClosedForm
import Stencil.Proofs.Paragraph.Scalars
import Stencil.Proofs.Sheet.Scalars
import Stencil.Proofs.Sheet.Visit

/-! Whether there is anything to fill is asked before each fill. The answer is exact: where it is no
the fill would do nothing, and where it is yes the fill comes across a placeholder. For a table this
is asked of the rows as they are at first, while the fill walks rows that it inserts and removes; it
does so only from the first row with a collection on, and there it has come across one. -/

namespace Stencil

/-- How many placeholders a fill came across, those that it could not resolve included. -/
def Outcome.met (o : Outcome) : Nat := o.filled + o.expanded + o.unresolved.length

theorem Outcome.met_merge (first second : Outcome) :
    (first.merge second).met = first.met + second.met := by
  simp only [met, merge, List.length_append]
  omega

/-- Every scalar placeholder is either filled or left. -/
theorem Source.met_outcomeOf (source : Source) (found : List Placeholder) :
    (source.outcomeOf found).met = found.length := by
  induction found with
  | nil => rfl
  | cons p rest ih =>
      rw [List.length_cons, ← ih]
      cases asked : source.get? p.path with
      | none =>
          rw [outcomeOf_cons_of_none asked]
          simp only [Outcome.met, List.length_cons]
          omega
      | some value =>
          rw [outcomeOf_cons_of_some asked]
          simp only [Outcome.met]
          omega

/-- A check that tells exactly whether a fill has anything to do. -/
structure Gates {σ : Type} (check : Bool) (target : σ) (fill : Attempt σ Outcome) : Prop where
  idle : check = false → fill = .done target {}
  busy : check = true → ∃ filled outcome, fill = .done filled outcome ∧ 0 < outcome.met

/-- Where the check says no the fill can be left out. -/
theorem Gates.skip {σ : Type} {check : Bool} {target : σ} {fill : Attempt σ Outcome}
    (gates : Gates check target fill) : (if check then fill else .done target {}) = fill := by
  cases checked : check with
  | false => exact (gates.idle checked).symm
  | true => rfl

variable {source : Source} {options : FillOptions}

/-! ### Scalars -/

theorem placeholdersOf_length_pos {kind : PlaceholderKind} {text : String}
    (found : hasPlaceholder kind text = true) : 0 < (placeholdersOf kind text).length := by
  rw [List.length_pos_iff]
  intro nothing
  rw [placeholdersOf_eq_nil_iff, found] at nothing
  cases nothing

theorem Paragraph.gates_fillScalars (source : Source) (options : FillOptions) (p : Paragraph) :
    Gates p.hasScalars p (p.fillScalars source options) where
  idle absent := by
    rw [hasScalars] at absent
    simp only [fillScalars, isMatch_classify, absent, Bool.not_false, if_true]
  busy found := by
    obtain ⟨filled, ran, -⟩ := fillScalars_done source options p
    refine ⟨filled, _, ran, ?_⟩
    rw [Source.met_outcomeOf]
    exact placeholdersOf_length_pos found

theorem Sheet.gates_fillScalarsAt (source : Source) (options : FillOptions) (s : Sheet)
    (row column : Nat) :
    Gates (s.hasScalarsAt row column) s (s.fillScalarsAt source options row column) where
  idle absent := fillScalarsAt_of_none absent
  busy found := by
    refine ⟨_, _, fillScalarsAt_eq source options s row column, ?_⟩
    cases held : s.text? row column with
    | none =>
        rw [hasScalarsAt, held] at found
        cases found
    | some text =>
        rw [hasScalarsAt, held, Option.any_some] at found
        rw [scalarOutcome, held, Option.elim_some, Source.met_outcomeOf]
        exact placeholdersOf_length_pos found

/-! ### Collections -/

theorem Sheet.gates_expandAt (source : Source) (options : FillOptions) (s : Sheet)
    (row column : Nat) (c : Counting) :
    Gates (s.hasCollectionAt row column) s (s.expandAt source options false row column c) where
  idle absent := by
    unfold expandAt
    cases held : s.text? row column with
    | none => rfl
    | some text =>
        rw [hasCollectionAt, held, Option.any_some, hasPlaceholder_collection,
          Option.isSome_eq_false_iff, Option.isNone_iff_eq_none] at absent
        simp only [absent]
  busy found := by
    obtain ⟨next, ran⟩ := s.expandAt_outcome source options row column c
    refine ⟨next, _, ran, ?_⟩
    unfold collectionOutcome
    cases held : s.text? row column with
    | none =>
        rw [hasCollectionAt, held] at found
        cases found
    | some text =>
        rw [hasCollectionAt, held, Option.any_some, hasPlaceholder_collection] at found
        obtain ⟨use, first⟩ := Option.isSome_iff_exists.1 found
        rw [Option.bind_some, first, Option.elim_some]
        cases source.items? use.collection with
        | none => exact Nat.one_pos
        | some items =>
            simp only [Option.elim_some, Outcome.met, expansionOutcome]
            omega

theorem TableCell.hasCollection_eq (cell : TableCell) :
    cell.hasCollection = cell.firstCollection?.isSome := by
  rw [hasCollection, firstCollection?, Bool.eq_iff_iff, List.findSome?_isSome_iff,
    List.any_eq_true]
  simp only [hasPlaceholder_collection]

/-- Every cell of a row that has a collection is either expanded or left. -/
theorem TableRow.length_cursorsFrom (source : Source) (column : Nat) (cells : List TableCell) :
    (cursorsFrom source column cells).1.length + (cursorsFrom source column cells).2.length =
      cells.countP TableCell.hasCollection := by
  induction cells generalizing column with
  | nil => rfl
  | cons cell rest ih =>
      rw [List.countP_cons, ← ih (column + 1), cell.hasCollection_eq, cursorsFrom]
      cases cell.firstCollection? with
      | none => rfl
      | some use =>
          dsimp only
          cases source.items? use.collection with
          | none => exact (Nat.add_assoc ..).symm
          | some items => exact Nat.add_right_comm ..

namespace Table

/-- The expansion of rows comes across the collections of the first of them. -/
theorem met_expansion_cons (row : TableRow) (rest : List TableRow) :
    row.cells.countP TableCell.hasCollection ≤ (expansion source options (row :: rest)).2.met := by
  rw [← TableRow.length_cursorsFrom source 0, expansion]
  generalize TableRow.cursorsFrom source 0 row.cells = read
  obtain ⟨cursors, unresolved⟩ := read
  have all : ColumnCursor.longest cursors = ColumnCursor.longest cursors := rfl
  obtain ⟨-, kept⟩ := ColumnCursor.generations_eq options all
  dsimp only
  split
  · rename_i empty
    rw [List.isEmpty_iff.1 empty, Outcome.met_merge]
    simp only [Outcome.met, List.length_nil]
    omega
  · rw [Outcome.met_merge]
    simp only [Outcome.met, kept, List.length_append]
    omega

/-- A row without a collection stays, and nothing is said of it. -/
theorem expansion_cons_of_none {row : TableRow}
    (absent : row.cells.any TableCell.hasCollection = false) (rest : List TableRow) :
    expansion source options (row :: rest) =
      (row :: (expansion source options rest).1, (expansion source options rest).2) := by
  have count := TableRow.length_cursorsFrom source 0 row.cells
  rw [List.countP_eq_zero.2 (List.any_eq_false.1 absent)] at count
  rw [expansion]
  generalize TableRow.cursorsFrom source 0 row.cells = read at count ⊢
  obtain ⟨cursors, unresolved⟩ := read
  dsimp only at count
  obtain ⟨noCursor, noName⟩ := Nat.add_eq_zero_iff.1 count
  cases List.eq_nil_of_length_eq_zero noCursor
  cases List.eq_nil_of_length_eq_zero noName
  simp [Outcome.merge]

theorem expansion_of_none {rows : List TableRow}
    (absent : (rows.any fun row => row.cells.any TableCell.hasCollection) = false) :
    expansion source options rows = (rows, {}) := by
  induction rows with
  | nil => rw [expansion]
  | cons row rest ih =>
      rw [List.any_cons, Bool.or_eq_false_iff] at absent
      rw [expansion_cons_of_none absent.1, ih absent.2]

theorem met_expansion_pos {rows : List TableRow}
    (found : (rows.any fun row => row.cells.any TableCell.hasCollection) = true) :
    0 < (expansion source options rows).2.met := by
  induction rows with
  | nil => cases found
  | cons row rest ih =>
      cases here : row.cells.any TableCell.hasCollection with
      | true =>
          have count := List.countP_pos_iff.2 (List.any_eq_true.1 here)
          exact Nat.lt_of_lt_of_le count (met_expansion_cons row rest)
      | false =>
          rw [List.any_cons, here, Bool.false_or] at found
          rw [expansion_cons_of_none here]
          exact ih found

theorem gates_expand (source : Source) (options : FillOptions) (t : Table) :
    Gates t.hasCollection t (t.expand source options false) where
  idle absent := by rw [expand_eq, expansion_of_none absent]
  busy found := ⟨_, _, expand_eq source options t, met_expansion_pos found⟩

end Table

/-- The checks before a fill are exact, for the scalars of a paragraph and of a sheet cell and for
the collections of a sheet cell and of a table. Where a check says no the fill changes nothing and
reports nothing, and where it says yes the fill ends without an error and reports a placeholder. The
steps that leave a fill out where its check says no come to the same as if they did not. -/
theorem checks_gate_fills (source : Source) (options : FillOptions) (p : Paragraph) (s : Sheet)
    (row column : Nat) (t : Table) (cancelled : Bool) (part : Part) (index : Nat)
    (location : Location) (report : Report) (c : Counting) :
    (Gates p.hasScalars p (p.fillScalars source options) ∧
      Gates (s.hasScalarsAt row column) s (s.fillScalarsAt source options row column) ∧
      Gates (s.hasCollectionAt row column) s (s.expandAt source options false row column c) ∧
      Gates t.hasCollection t (t.expand source options false)) ∧
    FlowPass.fillParagraph ⟨source, options, cancelled⟩ location p report =
      (p.fillScalars source options).mapResult (report.absorb location) ∧
    s.visitScalars source options row column = s.fillScalarsAt source options row column ∧
    Sheet.visitCollections source options false c s row column =
      s.expandAt source options false row column c ∧
    FlowPass.expandTable ⟨source, options, false⟩ part index t report =
      (t.expand source options false).mapResult (report.absorb (.table part index)) := by
  have inParagraph := p.gates_fillScalars source options
  have inCell := s.gates_fillScalarsAt source options row column
  have atCell := s.gates_expandAt source options row column c
  have inTable := t.gates_expand source options
  refine ⟨⟨inParagraph, inCell, atCell, inTable⟩, ?_, inCell.skip, atCell.skip, ?_⟩
  · rw [← inParagraph.skip, FlowPass.fillParagraph]
    cases p.hasScalars with
    | true => rfl
    | false => exact congrArg (Attempt.done p) (report.absorb_empty location).symm
  · rw [← inTable.skip, FlowPass.expandTable]
    cases t.hasCollection with
    | true => rfl
    | false => exact congrArg (Attempt.done t) (report.absorb_empty _).symm

/-- A headline without a placeholder, and a row with two that the data has nothing for. -/
def seating : Table := ⟨[.ofTexts ["Table {No}"], .ofTexts ["[Guests.Name]", "[Hosts]"]]⟩

/-- The seating is worth a fill although nothing can be filled. Its headline alone is worth none as
a table, but it is as a paragraph. -/
theorem seating_gated :
    (seating.hasCollection = true ∧ ∃ filled outcome,
      seating.expand (.ofValue .null) {} false = .done filled outcome ∧ 0 < outcome.met) ∧
    (Table.hasCollection ⟨[.ofTexts ["Table {No}"]]⟩ = false ∧
      Table.expand (.ofValue .null) {} false ⟨[.ofTexts ["Table {No}"]]⟩ =
        .done ⟨[.ofTexts ["Table {No}"]]⟩ {}) ∧
    (Paragraph.hasScalars ⟨[{ text := "Table {No}" }]⟩ = true ∧ ∃ filled outcome,
      Paragraph.fillScalars (.ofValue .null) {} ⟨[{ text := "Table {No}" }]⟩ =
        .done filled outcome ∧ 0 < outcome.met) := by
  have gates (t : Table) := (checks_gate_fills (.ofValue .null) {} ⟨[{ text := "Table {No}" }]⟩
    {} 0 0 t false .body 0 (.paragraph .body 0) {} .words).1
  have rowFound : seating.hasCollection = true := by cbv
  have headline : Table.hasCollection ⟨[.ofTexts ["Table {No}"]]⟩ = false := by cbv
  have scalars : Paragraph.hasScalars ⟨[{ text := "Table {No}" }]⟩ = true := by cbv
  obtain ⟨inParagraph, -, -, inTable⟩ := gates seating
  exact ⟨⟨rowFound, inTable.busy rowFound⟩, ⟨headline, (gates _).2.2.2.idle headline⟩, scalars,
    inParagraph.busy scalars⟩

end Stencil
