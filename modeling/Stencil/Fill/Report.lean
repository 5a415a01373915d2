import Stencil.Fill.Outcome
import Stencil.Placeholder.Grammar

/-! Where placeholders stand in a template, and what a fill reports about them. -/

namespace Stencil

inductive Part where
  | body
  | header (index : Nat)
  | footer (index : Nat)
  deriving DecidableEq, Repr

def Part.describe : Part → String
  | body => "body"
  | header index => "header " ++ toString index
  | footer index => "footer " ++ toString index

inductive Location where
  | cell (sheet : String) (row column : Nat)
  | paragraph (part : Part) (index : Nat)
  | table (part : Part) (table : Nat)
  | tableCell (part : Part) (table row column : Nat)
  deriving DecidableEq, Repr

def Location.describe : Location → String
  | cell sheet row column =>
      "sheet `" ++ sheet ++ "` row " ++ toString row ++ " column " ++ toString column
  | paragraph part index => part.describe ++ " paragraph " ++ toString index
  | table part index => part.describe ++ " table " ++ toString index
  | tableCell part index row column =>
      part.describe ++ " table " ++ toString index ++ " row " ++ toString row
        ++ " column " ++ toString column

structure UnresolvedPlaceholder where
  location : Location
  placeholder : String
  deriving DecidableEq, Repr

structure Report where
  scalarsFilled : Nat := 0
  collectionsExpanded : Nat := 0
  rowsEmitted : Nat := 0
  unresolved : List UnresolvedPlaceholder := []
  deriving DecidableEq, Repr

namespace Report

def isComplete (r : Report) : Bool := r.unresolved.isEmpty

def hasChanges (r : Report) : Bool := 0 < r.scalarsFilled || 0 < r.collectionsExpanded

def absorb (r : Report) (location : Location) (outcome : Outcome) : Report :=
  { scalarsFilled := r.scalarsFilled + outcome.filled
    collectionsExpanded := r.collectionsExpanded + outcome.expanded
    rowsEmitted := r.rowsEmitted + outcome.rowsEmitted
    unresolved := r.unresolved ++ outcome.unresolved.map (⟨location, ·⟩) }

theorem absorb_empty (r : Report) (location : Location) : r.absorb location {} = r := by
  simp [absorb]

end Report

/-- A placeholder of a template. -/
structure PlaceholderUse where
  kind : PlaceholderKind
  text : String
  location : Location
  deriving DecidableEq, Repr

end Stencil
