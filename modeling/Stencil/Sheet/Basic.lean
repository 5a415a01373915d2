import Stencil.Sheet.Cell
import Stencil.Sheet.Counting
import Stencil.Sheet.Sparse

/-! Sheets of sparse rows and cells with merged regions, and workbooks of sheets. -/

namespace Stencil

/-- A rectangle of merged cells, its bounds included. -/
structure Region where
  firstRow : Nat
  lastRow : Nat
  firstColumn : Nat
  lastColumn : Nat
  deriving DecidableEq, Repr

namespace Region

def contains (r : Region) (row column : Nat) : Bool :=
  r.firstRow ≤ row && row ≤ r.lastRow && r.firstColumn ≤ column && column ≤ r.lastColumn

/-- A region moves with its rows and grows where rows are inserted within it. -/
def shift (r : Region) (start count : Nat) : Region :=
  if start ≤ r.firstRow then
    { r with firstRow := r.firstRow + count, lastRow := r.lastRow + count }
  else if start ≤ r.lastRow then { r with lastRow := r.lastRow + count }
  else r

def wrap (c : Counting) (r : Region) : Region :=
  { r with firstRow := c.wrap r.firstRow, lastRow := c.wrap r.lastRow }

end Region

abbrev Row := Sparse Cell

/-- Rows of cells under their row numbers, and the regions that are merged. -/
structure Sheet where
  name : String := ""
  rows : Sparse Row := .empty
  merged : List Region := []
  deriving DecidableEq

namespace Sheet

def firstRow? (s : Sheet) : Option Nat := s.rows.firstIndex?

def lastRow? (s : Sheet) : Option Nat := s.rows.lastIndex?

def hasRow (s : Sheet) (row : Nat) : Bool := s.rows.contains row

/-- Does nothing where the row exists. -/
def createRow (s : Sheet) (row : Nat) : Sheet :=
  { s with rows := s.rows.update row .empty id }

/-- Bring the rows and the regions to numbers of the counting. -/
def wrap (s : Sheet) : Counting → Sheet
  | .words =>
      { s with
        rows := s.rows.renumber Counting.words.wrap
        merged := s.merged.map (Region.wrap .words) }
  | .endless => s

@[simp] theorem wrap_endless (s : Sheet) : s.wrap .endless = s := rfl

/-- Move the rows from `start` on down by `count`, and the merged regions with them. -/
def shiftRows (s : Sheet) (start count : Nat) (c : Counting := .endless) : Sheet :=
  wrap { s with rows := s.rows.shift start count, merged := s.merged.map (·.shift start count) } c

def cell? (s : Sheet) (row column : Nat) : Option Cell :=
  (s.rows.get? row).bind fun cells => cells.get? column

def value? (s : Sheet) (row column : Nat) : Option CellValue := (s.cell? row column).map Cell.value

def style? (s : Sheet) (row column : Nat) : Option UInt32 := (s.cell? row column).map Cell.style

/-- The text of a cell that holds text. -/
def text? (s : Sheet) (row column : Nat) : Option String :=
  (s.value? row column).bind CellValue.text?

/-- Change a cell. Row and cell are created where they are missing. -/
def updateCell (s : Sheet) (row column : Nat) (f : Cell → Cell) : Sheet :=
  { s with rows := s.rows.update row .empty fun cells => cells.update column {} f }

def setValue (s : Sheet) (row column : Nat) (value : CellValue) : Sheet :=
  s.updateCell row column fun cell => { cell with value }

def setStyle (s : Sheet) (row column : Nat) (style : UInt32) : Sheet :=
  s.updateCell row column fun cell => { cell with style }

/-- The first column of a row that has a cell, and the one behind the last. -/
def columnBounds (s : Sheet) (row : Nat) (c : Counting := .endless) : Nat × Nat :=
  match s.rows.get? row with
  | none => (0, 0)
  | some cells =>
      match cells.firstIndex?, cells.lastIndex? with
      | some first, some last => (first, c.wrap (last + 1))
      | _, _ => (0, 0)

def columns (s : Sheet) (row : Nat) (c : Counting := .endless) : List Nat :=
  let (start, stop) := s.columnBounds row c
  List.range' start (stop - start)

def isMerged (s : Sheet) (row column : Nat) : Bool :=
  s.merged.any fun region => region.contains row column

end Sheet

structure Workbook where
  sheets : List Sheet := []
  deriving DecidableEq

end Stencil
