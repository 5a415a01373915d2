import Stencil.Document
import Stencil.Json.Writer
import Stencil.Sheet.Basic

/-! Workbooks and documents as JSON. Fields stand in a fixed order and none is left out. -/

namespace Stencil

open Json (ofText ofNat)

def CellValue.toJson : CellValue → Json
  | blank => .object [("type", ofText "blank")]
  | text value => .object [("type", ofText "text"), ("value", ofText value)]
  | bool value => .object [("type", ofText "bool"), ("value", .bool value)]
  | int value => .object [("type", ofText "int"), ("value", .ofInt value.toInt)]
  | float value => .object [("type", ofText "float"), ("value", .ofFloat value)]
  | date value => .object [("type", ofText "date"), ("value", ofText (String.ofList value.toText))]

def Cell.toJson (cell : Cell) : Json :=
  .object [("value", cell.value.toJson), ("style", ofNat cell.style.toNat)]

/-- Entries under their indices. -/
def Sparse.toJson {α : Type} (write : α → Json) (s : Sparse α) : Json :=
  .object (s.entries.map fun (index, x) => (String.ofList (Nat.toDigits 10 index), write x))

def Row.toJson (row : Row) : Json := .object [("cells", Sparse.toJson Cell.toJson row)]

def Region.toJson (r : Region) : Json :=
  .object [("first_row", ofNat r.firstRow), ("last_row", ofNat r.lastRow),
    ("first_column", ofNat r.firstColumn), ("last_column", ofNat r.lastColumn)]

def Sheet.toJson (s : Sheet) : Json :=
  .object [("name", ofText s.name), ("rows", Sparse.toJson Row.toJson s.rows),
    ("merged", .array (s.merged.map Region.toJson))]

def Workbook.toJson (w : Workbook) : Json := .object [("sheets", .array (w.sheets.map Sheet.toJson))]

def Run.toJson (run : Run) : Json :=
  .object [("text", ofText run.text), ("style", ofNat run.style.toNat)]

def Paragraph.toJson (p : Paragraph) : Json := .object [("runs", .array (p.runs.map Run.toJson))]

def CellMerge.toJson : CellMerge → Json
  | gridSpan columns => .object [("grid_span", ofNat columns.toNat)]
  | horizontal => ofText "horizontal"
  | vertical => ofText "vertical"

def TableCell.toJson (cell : TableCell) : Json :=
  .object [("paragraphs", .array (cell.paragraphs.map Paragraph.toJson)),
    ("merge", (cell.merge.map CellMerge.toJson).getD .null)]

def TableRow.toJson (row : TableRow) : Json :=
  .object [("cells", .array (row.cells.map TableCell.toJson))]

def Table.toJson (t : Table) : Json := .object [("rows", .array (t.rows.map TableRow.toJson))]

def Body.toJson (b : Body) : Json :=
  .object [("paragraphs", .array (b.paragraphs.map Paragraph.toJson)),
    ("tables", .array (b.tables.map Table.toJson))]

def Document.toJson (d : Document) : Json :=
  .object [("body", d.body.toJson), ("headers", .array (d.headers.map Body.toJson)),
    ("footers", .array (d.footers.map Body.toJson))]

end Stencil
