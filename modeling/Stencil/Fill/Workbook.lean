import Stencil.Fill.Report
import Stencil.Fill.Scalar
import Stencil.Fill.SheetExpansion

/-! Filling the sheets of a workbook. Each sheet is walked twice, first for its collections and
then for its scalars, so the rows of an expansion are filled like all others. A walk also visits
the rows that are added while it runs. Text from the data may hold placeholders that expand
again, so a walk is given a bound on the rows it visits, and has no outcome where that is too
low. -/

namespace Stencil

namespace Sheet

/-- Fill one cell of a walk. -/
abbrev Visit := Sheet → Nat → Nat → Attempt Sheet Outcome

/-- Visit cells of one row in the given order. What a visit leaves unresolved is reported at
its cell. -/
def visitColumns (visit : Visit) (row : Nat) : List Nat → Sheet → Report → Attempt Sheet Report
  | [], s, report => .done s report
  | column :: rest, s, report =>
      (visit s row column).andThen fun s outcome =>
        visitColumns visit row rest s (report.absorb (.cell s.name row column) outcome)

/-- Visit the rows from `row` to the last one that exists when the walk gets there. -/
def walkFrom (visit : Visit) (cancelled : Bool) (bound row : Nat) (s : Sheet) (report : Report)
    (c : Counting := .endless) : Option (Attempt Sheet Report) :=
  if (s.lastRow?).any fun last => row ≤ last then
    if cancelled then some (.stop s .cancelled)
    else match bound with
      | 0 => none
      | bound + 1 =>
          match visitColumns visit row (s.columns row c) s report with
          | ⟨s, .error e⟩ => some (.stop s e)
          | ⟨s, .ok report⟩ => walkFrom visit cancelled bound (c.wrap (row + 1)) s report c
  else some (.done s report)

/-- Visit every cell of a sheet from its first row on. -/
def walk (visit : Visit) (cancelled : Bool) (bound : Nat) (s : Sheet) (report : Report)
    (c : Counting := .endless) : Option (Attempt Sheet Report) :=
  match s.firstRow? with
  | none => some (.done s report)
  | some row => walkFrom visit cancelled bound row s report c

def visitCollections (source : Source) (options : FillOptions) (cancelled : Bool)
    (c : Counting := .endless) : Visit :=
  fun s row column =>
    if s.hasCollectionAt row column then s.expandAt source options cancelled row column c
    else .done s {}

def visitScalars (source : Source) (options : FillOptions) : Visit :=
  fun s row column =>
    if s.hasScalarsAt row column then s.fillScalarsAt source options row column
    else .done s {}

/-- Expand the collections of a sheet, then fill the scalars of what came out. -/
def fill (source : Source) (options : FillOptions) (cancelled : Bool) (bound : Nat) (s : Sheet)
    (report : Report) (c : Counting := .endless) : Option (Attempt Sheet Report) :=
  match s.walk (visitCollections source options cancelled c) cancelled bound report c with
  | none => none
  | some ⟨s, .error e⟩ => some (.stop s e)
  | some ⟨s, .ok report⟩ => s.walk (visitScalars source options) cancelled bound report c

end Sheet

namespace Workbook

def fillSheets (source : Source) (options : FillOptions) (cancelled : Bool) (bound : Nat)
    (sheets : List Sheet) (report : Report) (c : Counting := .endless) :
    Option (Attempt (List Sheet) Report) :=
  match sheets with
  | [] => some (.done [] report)
  | s :: rest =>
      match s.fill source options cancelled bound report c with
      | none => none
      | some ⟨s, .error e⟩ => some (.stop (s :: rest) e)
      | some ⟨s, .ok report⟩ =>
          (fillSheets source options cancelled bound rest report c).map
            (Attempt.within (s :: ·))

/-- Fill the sheets in order. `bound` is the number of rows that one walk may visit. -/
def fill (source : Source) (options : FillOptions) (cancelled : Bool) (bound : Nat)
    (w : Workbook) (c : Counting := .endless) : Option (Attempt Workbook Report) :=
  (fillSheets source options cancelled bound w.sheets {} c).map (Attempt.within Workbook.mk)

end Workbook

end Stencil
