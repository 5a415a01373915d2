import Stencil.Value.Render

/-! Typed values of sheet cells. -/

namespace Stencil

inductive CellValue where
  | blank
  | text (value : String)
  | bool (value : Bool)
  | int (value : Int64)
  | float (value : Binary64)
  | date (value : Calendar.DateTime)
  deriving DecidableEq, Inhabited

namespace CellValue

/-- Scalars keep their type, containers are written as text. -/
def ofValue (options : FillOptions) (format : Option String) : Value → CellValue
  | .null => .blank
  | .bool value => .bool value
  | .int value => .int value
  | .float value => .float value
  | .text value => .text value
  | .date value => .date value
  | value => .text (value.render options format)

def toText : CellValue → String
  | .blank => ""
  | .text value => value
  | .bool value => boolText value
  | .int value => intText value
  | .float value => floatText value
  | .date value => value.standard

def text? : CellValue → Option String
  | .text value => some value
  | _ => none

/-- Text counts as content unless it is empty. -/
def hasContent : CellValue → Bool
  | .blank => false
  | .text value => value != ""
  | _ => true

/-- Equality with floats compared up to two representable steps. -/
def same : CellValue → CellValue → Bool
  | .blank, .blank => true
  | .text a, .text b => a == b
  | .bool a, .bool b => a == b
  | .int a, .int b => a == b
  | .float a, .float b => a.near b
  | .date a, .date b => a == b
  | _, _ => false

end CellValue

structure Cell where
  value : CellValue := .blank
  style : UInt32 := 0
  deriving DecidableEq, Inhabited

end Stencil
