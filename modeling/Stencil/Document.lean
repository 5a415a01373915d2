import Stencil.Error
import Stencil.Paragraph.Basic
import Stencil.Text.Blank

/-! Documents of paragraphs and tables, with headers and footers. -/

namespace Stencil

/-- How a table cell takes part in a merge. -/
inductive CellMerge where
  /-- The cell spans this many columns of the grid. -/
  | gridSpan (columns : UInt32)
  | horizontal
  | vertical
  deriving DecidableEq, Repr

structure TableCell where
  paragraphs : List Paragraph := []
  merge : Option CellMerge := none
  deriving DecidableEq, Repr

namespace TableCell

def isMerged (cell : TableCell) : Bool :=
  match cell.merge with
  | some (.gridSpan columns) => 1 < columns
  | some _ => true
  | none => false

/-- The paragraphs, one to a line. -/
def text (cell : TableCell) : String := "\n".intercalate (cell.paragraphs.map Paragraph.text)

/-- Whether rows that take the place of the cell's row would lose something. -/
def isOccupied (cell : TableCell) : Bool :=
  cell.isMerged || !Text.allBlank cell.text.toList

end TableCell

structure TableRow where
  cells : List TableCell := []
  deriving DecidableEq, Repr

structure Table where
  rows : List TableRow := []
  deriving DecidableEq, Repr

namespace Table

/-- Insert a copy of a row before the row `target`, or behind the last row. -/
def cloneRow (t : Table) (source target : Nat) : Except FillError Table :=
  match t.rows[source]? with
  | none => .error (.rowOutOfRange source t.rows.length)
  | some row =>
      if target ≤ t.rows.length then .ok ⟨t.rows.insertIdx target row⟩
      else .error (.rowOutOfRange target t.rows.length)

def removeRow (t : Table) (index : Nat) : Except FillError Table :=
  if index < t.rows.length then .ok ⟨t.rows.eraseIdx index⟩
  else .error (.rowOutOfRange index t.rows.length)

def texts (t : Table) : List (List String) := t.rows.map fun row => row.cells.map TableCell.text

end Table

/-- The paragraphs and tables of a body, a header or a footer. -/
structure Body where
  paragraphs : List Paragraph := []
  tables : List Table := []
  deriving DecidableEq, Repr

/-- A text document: a body, and the headers and footers of its sections. -/
structure Document where
  body : Body := {}
  headers : List Body := []
  footers : List Body := []
  deriving DecidableEq, Repr

end Stencil
