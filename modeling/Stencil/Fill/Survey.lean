import Stencil.Document
import Stencil.Fill.Report
import Stencil.Placeholder.Scan
import Stencil.Sheet.Basic

/-! The placeholders of a template, found without filling it. -/

namespace Stencil

/-- Merge two lists of occurrences by where they start, those of the first list before those of
the second. -/
def Occurrence.mergeByStart : List Occurrence → List Occurrence → List Occurrence
  | [], second => second
  | first, [] => first
  | a :: first, b :: second =>
      if a.start ≤ b.start then a :: mergeByStart first (b :: second)
      else b :: mergeByStart (a :: first) second
termination_by first second => first.length + second.length

/-- The placeholders of a text in the order in which they start. -/
def placeholdersIn (text : String) (location : Location) : List PlaceholderUse :=
  (Occurrence.mergeByStart (occurrences .collection text) (occurrences .scalar text)).map
    fun o => ⟨o.placeholder.kind, String.ofList o.placeholder.text, location⟩

def Sheet.placeholders (c : Counting := .endless) (s : Sheet) : List PlaceholderUse :=
  match s.firstRow?, s.lastRow? with
  | some first, some last =>
      (List.range' first (last + 1 - first)).flatMap fun row =>
        (s.columns row c).flatMap fun column =>
          match s.text? row column with
          | some text => placeholdersIn text (.cell s.name row column)
          | none => []
  | _, _ => []

def Workbook.placeholders (c : Counting := .endless) (w : Workbook) : List PlaceholderUse :=
  w.sheets.flatMap (Sheet.placeholders c)

def TableCell.placeholders (location : Location) (cell : TableCell) : List PlaceholderUse :=
  cell.paragraphs.flatMap fun p => placeholdersIn p.text location

def Table.placeholders (part : Part) (index : Nat) (t : Table) : List PlaceholderUse :=
  t.rows.zipIdx.flatMap fun (row, r) =>
    row.cells.zipIdx.flatMap fun (cell, column) =>
      cell.placeholders (.tableCell part index r column)

def Body.placeholders (part : Part) (body : Body) : List PlaceholderUse :=
  (body.paragraphs.zipIdx.flatMap fun (p, index) => placeholdersIn p.text (.paragraph part index))
    ++ body.tables.zipIdx.flatMap fun (t, index) => t.placeholders part index

def Document.placeholders (d : Document) : List PlaceholderUse :=
  d.body.placeholders .body
    ++ (d.headers.zipIdx.flatMap fun (body, index) => body.placeholders (.header index))
    ++ d.footers.zipIdx.flatMap fun (body, index) => body.placeholders (.footer index)

end Stencil
