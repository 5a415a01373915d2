import Stencil.Document
import Stencil.Fill.Item
import Stencil.Paragraph.Splice

/-! Expanding the collection placeholders of a table. All collection columns of a template row
go forward together, one row per step until the longest is exhausted; then the template row is
dropped. -/

namespace Stencil

/-- A collection column of a template row. -/
structure ColumnCursor where
  column : Nat
  /-- The placeholder as it is written. -/
  placeholder : String
  property : Option String
  pending : List Value
  missingProperty : Bool := false

namespace ColumnCursor

/-- The text for the next row, none where the items are exhausted. -/
def advance (options : FillOptions) (cursor : ColumnCursor) : Option String × ColumnCursor :=
  match cursor.pending with
  | [] => (none, cursor)
  | item :: rest =>
      match itemValue? item cursor.property with
      | some (value, format) =>
          (some (value.render options format), { cursor with pending := rest })
      | none => (some "", { cursor with pending := rest, missingProperty := true })

/-- One row of texts, empty where a column is exhausted, until all columns are. -/
def generation? (options : FillOptions) (cursors : List ColumnCursor) :
    Option (List String × List ColumnCursor) :=
  let steps := cursors.map (advance options)
  if steps.all fun step => step.1.isNone then none
  else some (steps.map fun step => step.1.getD "", steps.map Prod.snd)

def longest (cursors : List ColumnCursor) : Nat :=
  cursors.foldl (fun most cursor => max most cursor.pending.length) 0

end ColumnCursor

namespace TableCell

def hasCollection (cell : TableCell) : Bool :=
  cell.paragraphs.any fun p => hasPlaceholder .collection p.text

/-- The first collection placeholder of the first paragraph that has one. -/
def firstCollection? (cell : TableCell) : Option CollectionUse :=
  cell.paragraphs.findSome? fun p => Stencil.firstCollection? p.text

private def substituteIn (value : String) : List Paragraph → Attempt (List Paragraph) Unit
  | [] => .done [] ()
  | p :: rest =>
      match align .collection p.fragments with
      | first :: _ => (p.splice first value).within (· :: rest)
      | [] => (substituteIn value rest).within (p :: ·)

/-- Exchange the first collection placeholder for a text. -/
def substituteFirst (cell : TableCell) (value : String) : Attempt TableCell Unit :=
  (substituteIn value cell.paragraphs).within fun paragraphs => { cell with paragraphs }

theorem substituteFirst_of_none {cell : TableCell} (value : String)
    (none : ∀ p ∈ cell.paragraphs, align .collection p.fragments = []) :
    cell.substituteFirst value = .done cell () := by
  have nothing : ∀ paragraphs : List Paragraph,
      (∀ p ∈ paragraphs, align .collection p.fragments = []) →
      substituteIn value paragraphs = .done paragraphs () := by
    intro paragraphs none
    induction paragraphs with
    | nil => rfl
    | cons p rest ih =>
        rw [substituteIn, none p (List.mem_cons_self ..)]
        dsimp only
        rw [ih fun q member => none q (List.mem_cons_of_mem _ member)]
        rfl
  rw [substituteFirst, nothing cell.paragraphs none]
  rfl

/-- The paragraphs before the first one with a placeholder and those behind it stay. -/
theorem substituteFirst_of_split {cell : TableCell} (value : String) {front rest : List Paragraph}
    {p : Paragraph} {first : Alignment} {more : List Alignment}
    (shape : cell.paragraphs = front ++ p :: rest)
    (none : ∀ q ∈ front, align .collection q.fragments = [])
    (found : align .collection p.fragments = first :: more) :
    cell.substituteFirst value =
      (p.splice first value).within fun p => { cell with paragraphs := front ++ p :: rest } := by
  have reached : substituteIn value (front ++ p :: rest) =
      (p.splice first value).within fun p => front ++ p :: rest := by
    induction front generalizing cell with
    | nil => simp only [List.nil_append, substituteIn, found]
    | cons q front ih =>
        have others : ∀ q ∈ front, align .collection q.fragments = [] :=
          fun q member => none q (List.mem_cons_of_mem _ member)
        rw [List.cons_append, substituteIn, none q (List.mem_cons_self ..)]
        dsimp only
        rw [@ih ⟨front ++ p :: rest, cell.merge⟩ rfl others]
        rfl
  rw [substituteFirst, shape, reached]
  rfl

end TableCell

namespace TableRow

def substituteAll : List (Nat × String) → TableRow → Attempt TableRow Unit
  | [], row => .done row ()
  | (column, value) :: rest, row =>
      match row.cells[column]? with
      | none => substituteAll rest row
      | some cell =>
          ((cell.substituteFirst value).within fun cell =>
            (⟨row.cells.set column cell⟩ : TableRow)).andThen fun row _ => substituteAll rest row

/-- Whether one of the columns holds something in this row. -/
def isOccupied (row : TableRow) (columns : List Nat) : Bool :=
  columns.any fun column => (row.cells[column]?).any TableCell.isOccupied

/-- The collection columns of a row whose items are found, and the placeholders of the others. -/
def cursorsFrom (source : Source) : Nat → List TableCell → List ColumnCursor × List String
  | _, [] => ([], [])
  | column, cell :: rest =>
      let (cursors, unresolved) := cursorsFrom source (column + 1) rest
      match cell.firstCollection? with
      | none => (cursors, unresolved)
      | some placeholder =>
          match source.items? placeholder.collection with
          | none => (cursors, placeholder.sourceText :: unresolved)
          | some items =>
              ({ column
                 placeholder := placeholder.sourceText
                 property := placeholder.property
                 pending := items } :: cursors, unresolved)

end TableRow

namespace Table

def hasCollection (t : Table) : Bool :=
  t.rows.any fun row => row.cells.any TableCell.hasCollection

def change (t : Table) (result : Except FillError Table) : Attempt Table Unit :=
  match result with
  | .ok changed => .done changed ()
  | .error e => .stop t e

/-- Write one generation at a row: the row there gives way if it is free, else moves down. -/
def emitRow (t : Table) (template target : Nat) (columns : List Nat) (values : List String) :
    Attempt Table Unit :=
  let free := (t.rows[target]?).any fun row => !row.isOccupied columns
  (if free then t.change (t.removeRow target) else .done t ()).andThen fun t _ =>
    (t.change (t.cloneRow template target)).andThen fun t _ =>
      match t.rows[target]? with
      | none => .stop t (.rowOutOfRange target t.rows.length)
      | some row =>
          (row.substituteAll (columns.zip values)).within fun row => ⟨t.rows.set target row⟩

/-- Emit the generations below the template row. Gives the number of rows written. -/
def emitRows (options : FillOptions) (cancelled : Bool) (template : Nat) (columns : List Nat) :
    (steps : Nat) → List ColumnCursor → (emitted : Nat) → Table →
      Attempt Table (Nat × List ColumnCursor)
  | 0, cursors, emitted, t => .done t (emitted, cursors)
  | steps + 1, cursors, emitted, t =>
      match ColumnCursor.generation? options cursors with
      | none => .done t (emitted, cursors)
      | some (values, cursors) =>
          if cancelled then .stop t .cancelled
          else
            (t.emitRow template (template + 1 + emitted) columns values).andThen fun t _ =>
              emitRows options cancelled template columns steps cursors (emitted + 1) t

/-- Expand the rows from an index on. Every step leaves fewer rows to look at, so as many
steps as there are rows are enough. -/
def expandFrom (source : Source) (options : FillOptions) (cancelled : Bool) :
    (steps : Nat) → (index : Nat) → Outcome → Table → Attempt Table Outcome
  | 0, _, outcome, t => .done t outcome
  | steps + 1, index, outcome, t =>
      match t.rows[index]? with
      | none => .done t outcome
      | some row =>
          if cancelled then .stop t .cancelled
          else
            let (cursors, unresolved) := TableRow.cursorsFrom source 0 row.cells
            let outcome := outcome.merge { unresolved }
            if cursors.isEmpty then
              expandFrom source options cancelled steps (index + 1) outcome t
            else
              (emitRows options cancelled index (cursors.map ColumnCursor.column)
                  (ColumnCursor.longest cursors) cursors 0 t).andThen fun t (emitted, cursors) =>
                (t.change (t.removeRow index)).andThen fun t _ =>
                  let missing := cursors.filter ColumnCursor.missingProperty
                  let outcome := outcome.merge
                    { expanded := cursors.length
                      rowsEmitted := emitted
                      unresolved := missing.map ColumnCursor.placeholder }
                  expandFrom source options cancelled steps (index + emitted) outcome t

/-- Expand every row of a table that names a collection. -/
def expand (source : Source) (options : FillOptions) (cancelled : Bool) (t : Table) :
    Attempt Table Outcome :=
  expandFrom source options cancelled t.rows.length 0 {} t

end Table

end Stencil
