import Stencil.Text.Hex
import Stencil.Yaml.Cursor

/-! Scalars in quotes. Line breaks in them fold as between words. -/

namespace Stencil.Yaml

private def simpleEscape? : Char → Option Char
  | '0' => some '\x00'
  | 'a' => some '\x07'
  | 'b' => some '\x08'
  | 't' => some '\t'
  | '\t' => some '\t'
  | 'n' => some '\n'
  | 'v' => some '\x0b'
  | 'f' => some '\x0c'
  | 'r' => some '\x0d'
  | 'e' => some '\x1b'
  | ' ' => some ' '
  | '"' => some '"'
  | '/' => some '/'
  | '\\' => some '\\'
  | 'N' => some '\x85'
  | '_' => some '\xa0'
  | 'L' => some '\u2028'
  | 'P' => some '\u2029'
  | _ => none

/-- The character that stands behind a backslash, and the length of what spells it. -/
def escape? : List Char → Option (Char × Nat)
  | [] => none
  | mark :: rest =>
      match simpleEscape? mark with
      | some c => some (c, 1)
      | none => do
          let width := Text.escapeWidth mark
          let digits := rest.take width
          let code ← Text.hexNumber? digits
          if width = 0 || digits.length != width then none
          else if (0xd800 ≤ code && code ≤ 0xdfff) || 0x10ffff < code then none
          else some (Char.ofNat code, width + 1)

inductive Quote where
  | single
  | double
  deriving DecidableEq, Repr

def Quote.char : Quote → Char
  | single => '\''
  | double => '"'

/-- The characters up to the next gap or the closing quote, and whether a backslash took away
the line break behind them. -/
def takeRun? (quote : Quote) : (steps : Nat) → Cursor → Option ((List Char × Bool) × Cursor)
  | 0, _ => none
  | steps + 1, c =>
      match quote, c.rest with
      | .single, '\'' :: '\'' :: _ =>
          (takeRun? quote steps (c.skip 2)).map fun ((run, broken), c) => (('\'' :: run, broken), c)
      | .double, '\\' :: rest =>
          match (c.skip 1).newLine? with
          | some (_, next) => some (([], true), next)
          | none => do
              let (char, length) ← escape? rest
              let ((run, broken), c) ← takeRun? quote steps (c.skip (length + 1))
              some ((char :: run, broken), c)
      | _, char :: _ =>
          if Text.isSpaceOrTab char || isBreak char || char = quote.char then some (([], false), c)
          else (takeRun? quote steps (c.skip 1)).map fun ((run, broken), c) =>
            ((char :: run, broken), c)
      | _, [] => some (([], false), c)

/-- The rest of a scalar behind its opening quote. The marks of documents may not stand in
it. -/
def takeQuoted? (quote : Quote) : (steps : Nat) → Cursor → Option (List Char × Cursor)
  | 0, _ => none
  | steps + 1, c =>
      if c.atDocumentMarks || c.rest.isEmpty then none
      else do
        let ((run, broken), c) ← takeRun? quote (c.rest.length + 1) c
        if c.rest.head? == some quote.char then some (run, c.skip 1)
        else
          let (gap, c) ← Gap.take? 0 c.rest.length { broken } c
          let (text, c) ← takeQuoted? quote steps c
          some (run ++ gap.text ++ text, c)

end Stencil.Yaml
