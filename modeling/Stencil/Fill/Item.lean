import Stencil.Fill.Outcome
import Stencil.Placeholder.Scan

/-! The items of a collection, as its placeholder asks for them. -/

namespace Stencil

/-- What is written for an item: the item, or a property of it. -/
def itemValue? (item : Value) : Option String → Option (Value × Option String)
  | none => some (item, none)
  | some property => (item.resolve? property).map fun found => (found.value, found.format)

end Stencil
