import Stencil.Json.Number
import Stencil.Json.Reader
import Stencil.Value.Basic

/-! JSON as data. -/

namespace Stencil.Json

mutual

/-- None where a number is out of range, a string is no text, or arrays and objects are nested
deeper than `depth`. -/
def toValue? (depth : Nat) : Json → Option Value
  | .null => some .null
  | .bool value => some (.bool value)
  | .number lexeme => (number? lexeme).map Scalar.toValue
  | .text content => content.map .text
  | .array items => if depth = 0 then none else (itemValues? (depth - 1) items).map .sequence
  | .object members =>
      if depth = 0 then none else (memberValues? (depth - 1) members).map Value.ofEntries

def itemValues? (depth : Nat) : List Json → Option (List Value)
  | [] => some []
  | item :: rest => do
      let value ← item.toValue? depth
      let values ← itemValues? depth rest
      return value :: values

def memberValues? (depth : Nat) : List (String × Json) → Option (List (String × Value))
  | [] => some []
  | (key, member) :: rest => do
      let value ← member.toValue? depth
      let values ← memberValues? depth rest
      return (key, value) :: values

end

/-- How deep arrays and objects may be nested in data. -/
def nestingLimit : Nat := 127

def readValue? (text : String) : Option Value := (read? text).bind (toValue? nestingLimit)

end Stencil.Json
