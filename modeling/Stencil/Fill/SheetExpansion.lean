import Stencil.Attempt
import Stencil.Fill.Item
import Stencil.Placeholder.Classify
import Stencil.Sheet.Basic

/-! Expanding a collection placeholder of a sheet cell into one row per item, from the cell
downwards. Rows that exist are used where the column is free in them; rows with content or a
merged cell in the column are pushed down. -/

namespace Stencil

/-- What an expansion knows of its template cell before it writes. -/
structure Expansion where
  template : String
  /-- Whether the values keep their type. -/
  native : Bool
  property : Option String
  anchor : Nat
  column : Nat
  /-- The styles of the row that is repeated. -/
  rowStyles : List (Nat × UInt32)
  anchorStyle : Option UInt32

/-- How far an expansion has come. -/
structure Emission where
  sheet : Sheet
  /-- Where the template cell is now. It moves when its row is pushed down. -/
  templateRow : Nat
  missingProperty : Bool := false
  emitted : Nat := 0

inductive RowState where
  | missing
  | taken
  | free
  deriving DecidableEq, Repr

namespace Expansion

def rowState (e : Expansion) (sheet : Sheet) (offset : Nat) (c : Counting := .endless) :
    RowState :=
  let target := c.wrap (e.anchor + offset)
  if !sheet.hasRow target then .missing
  else if sheet.isMerged target e.column
      || (0 < offset && (sheet.value? target e.column).any CellValue.hasContent) then .taken
  else .free

/-- A new row in the styles of the template row. -/
def freshRow (e : Expansion) (sheet : Sheet) (target : Nat) : Sheet :=
  e.rowStyles.foldl (fun sheet (column, style) => sheet.setStyle target column style)
    (sheet.createRow target)

/-- Make the row for an item ready to be written. -/
def prepare (e : Expansion) (offset : Nat) (st : Emission) (c : Counting := .endless) :
    Emission :=
  let target := c.wrap (e.anchor + offset)
  match e.rowState st.sheet offset c with
  | .missing => { st with sheet := e.freshRow st.sheet target }
  | .taken =>
      { st with
        sheet := e.freshRow (st.sheet.shiftRows target 1 c) target
        templateRow :=
          if target ≤ st.templateRow then c.wrap (st.templateRow + 1) else st.templateRow }
  | .free =>
      match e.anchorStyle with
      | some style => { st with sheet := st.sheet.setStyle target e.column style }
      | none => st

def cellFor (e : Expansion) (options : FillOptions) (value : Value) (format : Option String) :
    CellValue :=
  if e.native then .ofValue options format value
  else .text (replaceFirst .collection e.template (value.render options format))

def writeItem (e : Expansion) (options : FillOptions) (offset : Nat) (item : Value)
    (st : Emission) (c : Counting := .endless) : Emission :=
  let st := e.prepare offset st c
  let found := itemValue? item e.property
  let (value, format) := found.getD (.null, none)
  { st with
    sheet :=
      st.sheet.setValue (c.wrap (e.anchor + offset)) e.column (e.cellFor options value format)
    missingProperty := st.missingProperty || found.isNone
    emitted := st.emitted + 1 }

def writeItems (e : Expansion) (options : FillOptions) (cancelled : Bool) (offset : Nat)
    (items : List Value) (st : Emission) (c : Counting := .endless) : Attempt Emission Unit :=
  match items with
  | [] => .done st ()
  | item :: rest =>
      if cancelled then .stop st .cancelled
      else
        e.writeItems options cancelled (offset + 1) rest (e.writeItem options offset item st c) c

/-- A template cell that was pushed down is cleared, or it would be expanded again. -/
def clearTemplate (e : Expansion) (st : Emission) : Sheet :=
  if st.templateRow = e.anchor then st.sheet
  else st.sheet.setValue st.templateRow e.column .blank

end Expansion

namespace Sheet

def hasCollectionAt (s : Sheet) (row column : Nat) : Bool :=
  (s.text? row column).any (hasPlaceholder .collection)

/-- The styles of the cells of a row, by column. -/
def rowStyles (s : Sheet) (row : Nat) (c : Counting := .endless) : List (Nat × UInt32) :=
  (s.columns row c).filterMap fun column => (s.style? row column).map (column, ·)

/-- Expand the first collection placeholder of a cell downwards, one row for each item. Without
a placeholder, or without items under its path, the sheet stays as it is. -/
def expandAt (source : Source) (options : FillOptions) (cancelled : Bool) (s : Sheet)
    (row column : Nat) (c : Counting := .endless) : Attempt Sheet Outcome :=
  match s.text? row column with
  | none => .done s {}
  | some template =>
      match firstCollection? template with
      | none => .done s {}
      | some placeholder =>
          match source.items? placeholder.collection with
          | none => .done s { unresolved := [placeholder.sourceText] }
          | some items =>
              let e : Expansion :=
                { template
                  native := (classify .collection template).isSinglePlaceholder
                  property := placeholder.property
                  anchor := row
                  column
                  rowStyles := s.rowStyles row c
                  anchorStyle := s.style? row column }
              match e.writeItems options cancelled 0 items { sheet := s, templateRow := row } c with
              | ⟨st, .error error⟩ => .stop st.sheet error
              | ⟨st, .ok ()⟩ =>
                  .done (e.clearTemplate st)
                    { expanded := 1
                      rowsEmitted := st.emitted
                      unresolved :=
                        if st.missingProperty then [placeholder.sourceText] else [] }

end Sheet

end Stencil
