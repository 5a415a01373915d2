import Stencil.Fill.Report
import Stencil.Fill.Scalar
import Stencil.Fill.TableExpansion

/-! Filling a document: the body first, then the headers and the footers that the options ask
for. In each part the paragraphs come before the tables, and a table is expanded before the
scalars in it are filled. -/

namespace Stencil

/-- What a fill of a document reads. -/
structure FlowPass where
  source : Source
  options : FillOptions
  cancelled : Bool

namespace FlowPass

/-- Fill a paragraph that holds scalar placeholders and report what stays at its place. -/
def fillParagraph (pass : FlowPass) (location : Location) (p : Paragraph) (report : Report) :
    Attempt Paragraph Report :=
  if p.hasScalars then
    (p.fillScalars pass.source pass.options).mapResult (report.absorb location)
  else .done p report

def fillCell (pass : FlowPass) (location : Location) (cell : TableCell) (report : Report) :
    Attempt TableCell Report :=
  (Attempt.each (fun _ => pass.fillParagraph location) cell.paragraphs report).within
    fun paragraphs => { cell with paragraphs }

def fillRow (pass : FlowPass) (part : Part) (table row : Nat) (cells : TableRow)
    (report : Report) : Attempt TableRow Report :=
  (Attempt.each (fun column => pass.fillCell (.tableCell part table row column)) cells.cells
    report).within TableRow.mk

/-- Fill the scalars of a table, cell by cell in reading order. -/
def fillTableCells (pass : FlowPass) (part : Part) (table : Nat) (t : Table) (report : Report) :
    Attempt Table Report :=
  (Attempt.each (pass.fillRow part table) t.rows report).within Table.mk

def expandTable (pass : FlowPass) (part : Part) (index : Nat) (t : Table) (report : Report) :
    Attempt Table Report :=
  if t.hasCollection then
    (t.expand pass.source pass.options pass.cancelled).mapResult
      (report.absorb (.table part index))
  else .done t report

/-- Expand a table if asked to, then fill its cells as they stand after that. -/
def fillTable (pass : FlowPass) (part : Part) (expand : Bool) (index : Nat) (t : Table)
    (report : Report) : Attempt Table Report :=
  if pass.cancelled then .stop t .cancelled
  else
    (if expand then pass.expandTable part index t report else .done t report).andThen
      (pass.fillTableCells part index)

/-- Fill the paragraphs of a part, then its tables. A cancellation is seen before each. -/
def fillPart (pass : FlowPass) (part : Part) (expand : Bool) (body : Body) (report : Report) :
    Attempt Body Report :=
  let paragraphs := Attempt.each
    (fun index p report =>
      if pass.cancelled then .stop p .cancelled
      else pass.fillParagraph (.paragraph part index) p report)
    body.paragraphs report
  (paragraphs.within fun paragraphs => { body with paragraphs }).andThen fun body report =>
    (Attempt.each (pass.fillTable part expand) body.tables report).within
      fun tables => { body with tables }

def fillParts (pass : FlowPass) (part : Nat → Part) (bodies : List Body) (report : Report) :
    Attempt (List Body) Report :=
  Attempt.each
    (fun index => pass.fillPart (part index) pass.options.flow.expandPartTables) bodies report

end FlowPass

/-- Fill a document. Tables of the body are always expanded, those of the other parts as the
options say. -/
def Document.fill (source : Source) (options : FillOptions) (cancelled : Bool) (d : Document) :
    Attempt Document Report :=
  let pass : FlowPass := { source, options, cancelled }
  let body := (pass.fillPart .body true d.body {}).within fun body => { d with body }
  let headers := body.andThen fun d report =>
    if options.flow.headers then
      (pass.fillParts .header d.headers report).within fun headers => { d with headers }
    else .done d report
  headers.andThen fun d report =>
    if options.flow.footers then
      (pass.fillParts .footer d.footers report).within fun footers => { d with footers }
    else .done d report

end Stencil
