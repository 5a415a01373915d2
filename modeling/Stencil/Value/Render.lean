import Stencil.Value.Basic
import Stencil.Decimal.Notation
import Stencil.Options

/-! Values as text. -/

namespace Stencil

def boolText (value : Bool) : String := if value then "true" else "false"

def intText (value : Int64) : String := toString value.toInt

def floatText (value : Binary64) : String := String.ofList (Notation.prose.write value)

/-- A date in the pattern of its field, else in that of the options, else in the standard
form. A pattern that cannot be used is passed over. -/
def dateText (options : FillOptions) (format : Option String) (date : Calendar.DateTime) :
    String :=
  ((format.bind date.format?).or (date.format? options.dateFormat)).getD date.standard

def joined (separator : String) : List String → String
  | [] => ""
  | [only] => only
  | first :: rest => first ++ separator ++ joined separator rest

namespace Value

mutual

/-- Null is empty text. Sequences and mappings join what they hold, records are their type
name. -/
def render (options : FillOptions) (format : Option String) : Value → String
  | .null => ""
  | .bool value => boolText value
  | .int value => intText value
  | .float value => floatText value
  | .text value => value
  | .date value => dateText options format value
  | .sequence items => joined options.sequenceSeparator (renderItems options items)
  | .mapping entries => joined options.sequenceSeparator (renderEntries options entries)
  | .record _ schema _ _ _ => schema.typeName

def renderItems (options : FillOptions) : List Value → List String
  | [] => []
  | item :: rest => item.render options none :: renderItems options rest

def renderEntries (options : FillOptions) : List (String × Value) → List String
  | [] => []
  | (_, value) :: rest => value.render options none :: renderEntries options rest

end

theorem renderItems_eq_map (options : FillOptions) (items : List Value) :
    renderItems options items = items.map (·.render options none) := by
  induction items with
  | nil => rfl
  | cons item rest ih => simp [renderItems, ih]

theorem renderEntries_eq_map (options : FillOptions) (entries : List (String × Value)) :
    renderEntries options entries = entries.map fun entry => entry.2.render options none := by
  induction entries with
  | nil => rfl
  | cons entry rest ih => simp [renderEntries, ih]

/-- The value under the options that hold where none are given. -/
def display (value : Value) : String := value.render {} none

end Value

end Stencil
