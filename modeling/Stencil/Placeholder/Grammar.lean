import Stencil.Value.Path

/-! The words that stand for data in a template. A scalar placeholder is a path in braces,
`{Customer:Name}`; a collection placeholder is a path in brackets, with a second one for a
property of the items, `[Students.Name]`. -/

namespace Stencil

inductive PlaceholderKind where
  | scalar
  | collection
  deriving DecidableEq, Repr

inductive Placeholder where
  | scalar (path : List Char)
  | collection (path : List Char) (property : Option (List Char))
  deriving DecidableEq, Repr

namespace Placeholder

def kind : Placeholder → PlaceholderKind
  | scalar _ => .scalar
  | collection _ _ => .collection

/-- The placeholder as it is written in a template. -/
def text : Placeholder → List Char
  | scalar path => '{' :: path ++ ['}']
  | collection path none => '[' :: path ++ [']']
  | collection path (some property) => '[' :: path ++ '.' :: property ++ [']']

theorem text_ne_nil (p : Placeholder) : p.text ≠ [] := by
  cases p with
  | scalar path => simp [text]
  | collection path property => cases property <;> simp [text]

def isPathChar (c : Char) : Bool := c.isAlphanum || c == ':'

/-- One or more segments between colons, each of one or more letters and digits. -/
def isPath (path : List Char) : Bool :=
  (path.splitOn ':').all fun segment => !segment.isEmpty && segment.all Char.isAlphanum

/-- The grammar. A scalar path may have empty segments, a collection path may not. -/
def WellFormed : Placeholder → Prop
  | scalar path => path ≠ [] ∧ path.all isPathChar
  | collection path property => isPath path ∧ ∀ p ∈ property, isPath p

end Placeholder

end Stencil
