import Stencil.Document
import Stencil.Json.Markup
import Stencil.Sheet.Basic
import Stencil.Yaml.Markup

/-! Workbooks and documents from JSON and YAML. -/

namespace Stencil

open Markup (scalar? bool? natural? integer? float? members? fieldsInOrder? indexed? bareCase?
  caseWith? fields? orDefault listOf? maybe? word32?)

variable {τ : Type} [Markup τ]

namespace CellValue

/-- A value of a type that is known before its content is read. -/
def ofContent? (type : String) (content : Option τ) : Option CellValue :=
  match type, content with
  | "blank", none => some .blank
  | "blank", some tree => if scalar? tree = some .null then some .blank else none
  | "text", some tree => (Markup.text? tree).map .text
  | "bool", some tree => (bool? tree).map .bool
  | "int", some tree => (integer? tree).map fun n => .int (Int64.ofInt n)
  | "float", some tree => (float? tree).map .float
  | "date", some tree =>
      ((Markup.text? tree).bind fun content =>
        Calendar.DateTime.ofText? content.toList).map .date
  | _, _ => none

/-- A value whose content was read before its type. -/
def ofScalar? (type : String) (content : Scalar) : Option CellValue :=
  match type, content with
  | "blank", .null => some .blank
  | "text", .text content => some (.text content)
  | "bool", .bool value => some (.bool value)
  | "int", .integer n => if n < (1 <<< 63 : Nat) then some (.int (Int64.ofInt n)) else none
  | "float", .integer n => some (.float (.ofRatio (n < 0) n.natAbs 1))
  | "float", .float x => some (.float x)
  | "date", .text content => (Calendar.DateTime.ofText? content.toList).map .date
  | _, _ => none

def ofMembers? : List (String × τ) → Option CellValue
  | [("type", type)] => (bareCase? type).bind fun type => ofContent? type (none : Option τ)
  | [("type", type), ("value", content)] =>
      (bareCase? type).bind fun type => ofContent? type (some content)
  | [("value", content), ("type", type)] => do
      let content ← scalar? content
      let type ← bareCase? type
      ofScalar? type content
  | _ => none

/-- A value names its type. -/
def ofMarkup? (tree : τ) : Option CellValue :=
  match fieldsInOrder? tree with
  | some [type, content] => (bareCase? type).bind fun type => ofContent? type (some content)
  | some _ => none
  | none => (members? tree).bind fun members =>
      ofMembers? (members.filter fun member => member.1 == "type" || member.1 == "value")

end CellValue

def Cell.ofMarkup? (tree : τ) : Option Cell := do
  match ← fields? ["value", "style"] tree with
  | [value, style] =>
      let value ← orDefault .blank CellValue.ofMarkup? value
      let style ← orDefault 0 word32? style
      return { value, style }
  | _ => none

/-- Of two entries with one index the later one counts. -/
def Sparse.ofMarkup? {α : Type} (read : τ → Option α) (tree : τ) : Option (Sparse α) := do
  let entries ← (← indexed? tree).mapM fun (index, entry) => (read entry).map (index, ·)
  return Sparse.ofList entries

def Row.ofMarkup? (tree : τ) : Option Row := do
  match ← fields? ["cells"] tree with
  | [cells] => orDefault .empty (Sparse.ofMarkup? Cell.ofMarkup?) cells
  | _ => none

def Region.ofMarkup? (tree : τ) : Option Region := do
  match ← fields? ["first_row", "last_row", "first_column", "last_column"] tree with
  | [some firstRow, some lastRow, some firstColumn, some lastColumn] =>
      let firstRow ← natural? firstRow
      let lastRow ← natural? lastRow
      let firstColumn ← natural? firstColumn
      let lastColumn ← natural? lastColumn
      return { firstRow, lastRow, firstColumn, lastColumn }
  | _ => none

def Sheet.ofMarkup? (tree : τ) : Option Sheet := do
  match ← fields? ["name", "rows", "merged"] tree with
  | [some name, rows, merged] =>
      let name ← Markup.text? name
      let rows ← orDefault .empty (Sparse.ofMarkup? Row.ofMarkup?) rows
      let merged ← orDefault [] (listOf? Region.ofMarkup?) merged
      return { name, rows, merged }
  | _ => none

def Workbook.ofMarkup? (tree : τ) : Option Workbook := do
  match ← fields? ["sheets"] tree with
  | [some sheets] => (listOf? Sheet.ofMarkup? sheets).map Workbook.mk
  | _ => none

def Run.ofMarkup? (tree : τ) : Option Run := do
  match ← fields? ["text", "style"] tree with
  | [some text, style] =>
      let text ← Markup.text? text
      let style ← orDefault 0 word32? style
      return { text, style }
  | _ => none

def Paragraph.ofMarkup? (tree : τ) : Option Paragraph := do
  match ← fields? ["runs"] tree with
  | [runs] => (orDefault [] (listOf? Run.ofMarkup?) runs).map Paragraph.mk
  | _ => none

def CellMerge.ofMarkup? (tree : τ) : Option CellMerge :=
  match caseWith? tree with
  | some ("grid_span", columns) => (word32? columns).map .gridSpan
  | _ =>
      match bareCase? tree with
      | some "horizontal" => some .horizontal
      | some "vertical" => some .vertical
      | _ => none

def TableCell.ofMarkup? (tree : τ) : Option TableCell := do
  match ← fields? ["paragraphs", "merge"] tree with
  | [paragraphs, merge] =>
      let paragraphs ← orDefault [] (listOf? Paragraph.ofMarkup?) paragraphs
      let merge ← orDefault none (maybe? CellMerge.ofMarkup?) merge
      return { paragraphs, merge }
  | _ => none

def TableRow.ofMarkup? (tree : τ) : Option TableRow := do
  match ← fields? ["cells"] tree with
  | [cells] => (orDefault [] (listOf? TableCell.ofMarkup?) cells).map TableRow.mk
  | _ => none

def Table.ofMarkup? (tree : τ) : Option Table := do
  match ← fields? ["rows"] tree with
  | [rows] => (orDefault [] (listOf? TableRow.ofMarkup?) rows).map Table.mk
  | _ => none

def Body.ofMarkup? (tree : τ) : Option Body := do
  match ← fields? ["paragraphs", "tables"] tree with
  | [paragraphs, tables] =>
      let paragraphs ← orDefault [] (listOf? Paragraph.ofMarkup?) paragraphs
      let tables ← orDefault [] (listOf? Table.ofMarkup?) tables
      return { paragraphs, tables }
  | _ => none

def Document.ofMarkup? (tree : τ) : Option Document := do
  match ← fields? ["body", "headers", "footers"] tree with
  | [body, headers, footers] =>
      let body ← orDefault {} Body.ofMarkup? body
      let headers ← orDefault [] (listOf? Body.ofMarkup?) headers
      let footers ← orDefault [] (listOf? Body.ofMarkup?) footers
      return { body, headers, footers }
  | _ => none

def Workbook.ofJson? (text : String) : Option Workbook := (Json.read? text).bind Workbook.ofMarkup?

def Workbook.ofYaml? (text : String) : Option Workbook := (Yaml.read? text).bind Workbook.ofMarkup?

def Document.ofJson? (text : String) : Option Document := (Json.read? text).bind Document.ofMarkup?

def Document.ofYaml? (text : String) : Option Document := (Yaml.read? text).bind Document.ofMarkup?

end Stencil
