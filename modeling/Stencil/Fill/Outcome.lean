import Stencil.Sheet.Cell
import Stencil.Value.Source

/-! What filling one target did. -/

namespace Stencil

/-- Counts of what a fill changed, and what it could not resolve. -/
structure Outcome where
  /-- Scalar placeholders exchanged for their value. -/
  filled : Nat := 0
  /-- Collection placeholders expanded. -/
  expanded : Nat := 0
  rowsEmitted : Nat := 0
  /-- Placeholders left as they were, in the order of the text. -/
  unresolved : List String := []
  deriving DecidableEq, Repr

namespace Outcome

def changed (o : Outcome) : Bool := 0 < o.filled || 0 < o.expanded

/-- What two fills did, one after the other. -/
def merge (first second : Outcome) : Outcome :=
  { filled := first.filled + second.filled
    expanded := first.expanded + second.expanded
    rowsEmitted := first.rowsEmitted + second.rowsEmitted
    unresolved := first.unresolved ++ second.unresolved }

theorem merge_empty (o : Outcome) : o.merge {} = o := by simp [merge]

theorem merge_assoc (a b c : Outcome) : (a.merge b).merge c = a.merge (b.merge c) := by
  simp [merge, Nat.add_assoc]

end Outcome

def Resolved.render (options : FillOptions) (found : Resolved) : String :=
  found.value.render options found.format

def Resolved.toCell (options : FillOptions) (found : Resolved) : CellValue :=
  .ofValue options found.format found.value

end Stencil
