import Stencil.Text.Measure

/-! Paragraphs: text in runs that each carry a style. -/

namespace Stencil

structure Run where
  text : String
  style : UInt32 := 0
  deriving DecidableEq, Repr

structure Paragraph where
  runs : List Run := []
  deriving DecidableEq, Repr

namespace Paragraph

def fragments (p : Paragraph) : List String := p.runs.map Run.text

def text (p : Paragraph) : String := String.ofList (p.runs.flatMap fun run => run.text.toList)

def runText? (p : Paragraph) (index : Nat) : Option String := p.runs[index]?.map Run.text

/-- Exchange the text of a run, which keeps its style. Does nothing where there is no such run. -/
def setRunText (p : Paragraph) (index : Nat) (text : String) : Paragraph :=
  ⟨p.runs.modify index fun run => { run with text }⟩

def removeRun (p : Paragraph) (index : Nat) : Paragraph := ⟨p.runs.eraseIdx index⟩

/-- The characters of the text, each with the style it is set in. -/
def styledText (p : Paragraph) : List (Char × UInt32) :=
  p.runs.flatMap fun run => run.text.toList.map (·, run.style)

theorem map_fst_styledText (p : Paragraph) :
    p.styledText.map Prod.fst = p.text.toList := by
  simp [styledText, text, List.map_flatMap, Function.comp_def]

end Paragraph

end Stencil
