import Stencil.Yaml.Cursor

/-! Scalars without quotes. They may go on over lines that are indented deeper than what they
belong to. -/

namespace Stencil.Yaml

private def isFlowMark (c : Char) : Bool :=
  c == ',' || c == '[' || c == ']' || c == '\x7b' || c == '\x7d'

/-- The characters up to the next gap or mark. Between brackets, a colon right before a mark is
refused. -/
def plainRun? (inFlow : Bool) : List Char → Option (List Char)
  | [] => some []
  | c :: rest =>
      if Text.isSpaceOrTab c || isBreak c then some []
      else if inFlow && c == ':' && rest.head?.any (fun d => isFlowMark d || d == '?') then none
      else if (c == ':' && atGap rest) || (inFlow && isFlowMark c) then some []
      else (plainRun? inFlow rest).map (c :: ·)

/-- The text of a scalar after a part of it and a gap, whether its last gap broke the line, and
the place behind that gap. -/
def takePlain? (inFlow : Bool) (indent : Nat) :
    (steps : Nat) → (text : List Char) → Gap → Cursor → Option ((List Char × Bool) × Cursor)
  | 0, _, _, _ => none
  | steps + 1, text, gap, c =>
      if c.atDocumentMarks || c.rest.head? == some '#' then some ((text, gap.broken), c)
      else do
        let run ← plainRun? inFlow c.rest
        let c := c.skip run.length
        let (text, gap) := if run.isEmpty then (text, gap) else (text ++ gap.text ++ run, {})
        if !c.rest.isEmpty && atGap c.rest then
          let (gap, c) ← Gap.take? indent c.rest.length gap c
          if !inFlow && c.column < indent then some ((text, gap.broken), c)
          else takePlain? inFlow indent steps text gap c
        else some ((text, gap.broken), c)

end Stencil.Yaml
