/-! The tokens of YAML. Indentation is made visible by tokens that begin and end blocks. -/

namespace Stencil.Yaml

/-- How a scalar is written, as far as its meaning depends on it. -/
inductive Style where
  | plain
  | literal
  | other
  deriving DecidableEq, Repr

inductive Token where
  | streamEnd
  | version (major minor : Nat)
  /-- A handle and what it stands for. -/
  | handle (name replacement : String)
  | documentStart
  | documentEnd
  | blockSequence
  | blockMapping
  | blockEnd
  | openSequence
  | closeSequence
  | openMapping
  | closeMapping
  /-- The hyphen of an item. -/
  | item
  | comma
  | key
  | value
  | alias (name : String)
  | anchor (name : String)
  | tag (handle suffix : String)
  | scalar (style : Style) (content : String)
  deriving DecidableEq, Repr

end Stencil.Yaml
