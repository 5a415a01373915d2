import Stencil.Fill.Outcome
import Stencil.Paragraph.Splice
import Stencil.Placeholder.Classify
import Stencil.Sheet.Basic

/-! Exchanging `{path}` placeholders for values, in paragraphs and in sheet cells. A text that
is one placeholder and nothing else takes the value as a whole: a paragraph becomes its first
run, a cell the typed value. -/

namespace Stencil

namespace Paragraph

def hasScalars (p : Paragraph) : Bool := hasPlaceholder .scalar p.text

/-- Put a text into the first run and drop the others. -/
def collapse (p : Paragraph) (text : String) : Paragraph :=
  (p.removeRuns (List.range' 1 (p.runs.length - 1))).setRunText 0 text

/-- Fill alignments from the last to the first, so that the runs before each of them are still
those it was aligned with. -/
def fillAligned (source : Source) (options : FillOptions) :
    List Alignment → Paragraph → Outcome → Attempt Paragraph Outcome
  | [], p, outcome => .done p outcome
  | alignment :: earlier, p, outcome =>
      match (scalarPath? alignment.key).map source.get? with
      | none => fillAligned source options earlier p outcome
      | some none =>
          fillAligned source options earlier p
            { outcome with unresolved := alignment.key :: outcome.unresolved }
      | some (some found) =>
          (p.splice alignment (found.render options)).andThen fun p _ =>
            fillAligned source options earlier p { outcome with filled := outcome.filled + 1 }

/-- Exchange the placeholders of a paragraph that resolve for the text of their values. -/
def fillScalars (source : Source) (options : FillOptions) (p : Paragraph) :
    Attempt Paragraph Outcome :=
  let text := p.text
  let classification := classify .scalar text
  if !classification.isMatch then .done p {}
  else if classification.isSinglePlaceholder then
    match (scalarPath? text).map source.get? with
    | none => .done p {}
    | some (some found) => .done (p.collapse (found.render options)) { filled := 1 }
    | some none => .done p { unresolved := [text] }
  else fillAligned source options (align .scalar p.fragments).reverse p {}

end Paragraph

/-- The text with the placeholders that resolve exchanged for their values. -/
def replaceScalars (source : Source) (options : FillOptions) : List Piece → List Char × Outcome
  | [] => ([], {})
  | .plain c :: rest =>
      let (text, outcome) := replaceScalars source options rest
      (c :: text, outcome)
  | .placeholder p :: rest =>
      let (text, outcome) := replaceScalars source options rest
      match p with
      | .scalar path =>
          match source.get? (String.ofList path) with
          | some found =>
              ((found.render options).toList ++ text,
                { outcome with filled := outcome.filled + 1 })
          | none =>
              (p.text ++ text,
                { outcome with unresolved := String.ofList p.text :: outcome.unresolved })
      | .collection _ _ => (p.text ++ text, outcome)

namespace Sheet

def hasScalarsAt (s : Sheet) (row column : Nat) : Bool :=
  (s.text? row column).any (hasPlaceholder .scalar)

/-- Exchange the placeholders of a cell that resolve. A cell that is one placeholder takes the
typed value, any other takes text. -/
def fillScalarsAt (source : Source) (options : FillOptions) (s : Sheet) (row column : Nat) :
    Attempt Sheet Outcome :=
  match s.text? row column with
  | none => .done s {}
  | some text =>
      let classification := classify .scalar text
      if !classification.isMatch then .done s {}
      else if classification.isSinglePlaceholder then
        match (scalarPath? text).bind source.get? with
        | some found =>
            .done (s.setValue row column (found.toCell options)) { filled := 1 }
        | none => .done s { unresolved := [text] }
      else
        let (updated, outcome) := replaceScalars source options (pieces .scalar text.toList)
        if 0 < outcome.filled then
          .done (s.setValue row column (.text (String.ofList updated))) outcome
        else .done s outcome

end Sheet

end Stencil
