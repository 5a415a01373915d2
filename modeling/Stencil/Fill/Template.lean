import Stencil.Fill.Document
import Stencil.Fill.Survey
import Stencil.Fill.Workbook

/-! Templates of either kind, filled once or once for each of many data values. -/

namespace Stencil

/-- What can be filled. -/
inductive Template where
  | workbook (w : Workbook)
  | document (d : Document)
  deriving DecidableEq

/-- How a template is filled: with which options, below which path of the data, and whether
that was called off. -/
structure Setup where
  options : FillOptions := {}
  scope : Option String := none
  cancelled : Bool := false

def Setup.source (setup : Setup) (data : Value) : Source :=
  match setup.scope with
  | some scope => (Source.ofValue data).below scope
  | none => .ofValue data

namespace Template

def placeholders : Template → List PlaceholderUse
  | workbook w => w.placeholders .words
  | document d => d.placeholders

/-- Fill without looking at the cancellation first. -/
def fillWith (source : Source) (options : FillOptions) (cancelled : Bool) (bound : Nat) :
    Template → Option (Attempt Template Report)
  | workbook w => (w.fill source options cancelled bound .words).map (Attempt.within workbook)
  | document d => some ((d.fill source options cancelled).within document)

/-- Fill a template in place, or refuse at once where the fill was called off. -/
def fill (setup : Setup) (bound : Nat) (data : Value) (t : Template) :
    Option (Attempt Template Report) :=
  if setup.cancelled then some (.stop t .cancelled)
  else t.fillWith (setup.source data) setup.options setup.cancelled bound

end Template

/-- What a receiver of filled copies answers: whether it calls the rest off, and the error with
which it refuses. -/
structure Reply where
  cancels : Bool := false
  refusal : Option FillError := none

/-- What came out of filling many copies. -/
structure Batch where
  /-- The copies handed to the receiver, in order, with the index of their data. -/
  delivered : List (Nat × Template)
  result : Except FillError (List Report)

namespace Template

/-- Fill a copy of the template for each data value. The receiver gets a copy only after it was
filled completely, and what it calls off is seen before the next value. -/
def fillEachFrom (setup : Setup) (bound : Nat) (receive : Nat → Template → Reply)
    (t : Template) : Nat → List Value → Bool → List Report → Option Batch
  | _, [], _, reports => some ⟨[], .ok reports.reverse⟩
  | index, data :: rest, cancelled, reports =>
      if cancelled then some ⟨[], .error .cancelled⟩
      else match t.fill { setup with cancelled } bound data with
        | none => none
        | some ⟨_, .error e⟩ => some ⟨[], .error e⟩
        | some ⟨copy, .ok report⟩ =>
            let reply := receive index copy
            match reply.refusal with
            | some e => some ⟨[(index, copy)], .error e⟩
            | none =>
                (fillEachFrom setup bound receive t (index + 1) rest
                  (cancelled || reply.cancels) (report :: reports)).map
                  fun batch => { batch with delivered := (index, copy) :: batch.delivered }

/-- Fill a copy of the template for each data value, from the first on. -/
def fillEach (setup : Setup) (bound : Nat) (receive : Nat → Template → Reply) (t : Template)
    (data : List Value) : Option Batch :=
  fillEachFrom setup bound receive t 0 data setup.cancelled []

end Template

end Stencil
