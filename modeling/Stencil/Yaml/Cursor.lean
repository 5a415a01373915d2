import Stencil.Text.Blank

/-! Places in a YAML text, with the line and column that decide its structure. -/

namespace Stencil.Yaml

def isBreak (c : Char) : Bool :=
  c == '\n' || c == '\x0d' || c == '\x85' || c == '\u2028' || c == '\u2029'

/-- Characters of anchors and of the names of directives and tag handles. -/
def isWordChar (c : Char) : Bool := c.isAlphanum || c == '_' || c == '-'

/-- Whether a word may end before this text. -/
def atGap : List Char → Bool
  | [] => true
  | c :: _ => Text.isSpaceOrTab c || isBreak c

/-- Whether a line ends before this text. -/
def atLineEnd : List Char → Bool
  | [] => true
  | c :: _ => isBreak c

/-- The line break that a text starts with, as it is kept, and its length. -/
def lineBreak? : List Char → Option (Char × Nat)
  | '\x0d' :: '\n' :: _ => some ('\n', 2)
  | c :: _ =>
      if c = '\u2028' || c = '\u2029' then some (c, 1)
      else if isBreak c then some ('\n', 1)
      else none
  | [] => none

structure Cursor where
  rest : List Char
  index : Nat := 0
  line : Nat := 0
  column : Nat := 0

namespace Cursor

/-- Go forward on the same line. -/
def skip (n : Nat) (c : Cursor) : Cursor :=
  { c with rest := c.rest.drop n, index := c.index + n, column := c.column + n }

def takeWhile (p : Char → Bool) (c : Cursor) : List Char × Cursor :=
  let front := c.rest.takeWhile p
  (front, c.skip front.length)

def skipWhile (p : Char → Bool) (c : Cursor) : Cursor := (c.takeWhile p).2

/-- The line break at the cursor and the start of the next line. -/
def newLine? (c : Cursor) : Option (Char × Cursor) :=
  (lineBreak? c.rest).map fun (kept, length) =>
    (kept, ⟨c.rest.drop length, c.index + length, c.line + 1, 0⟩)

/-- Three marks alone at the start of a line begin or end a document. -/
def atMarks (mark : Char) (c : Cursor) : Bool :=
  c.column == 0 && c.rest.take 3 == [mark, mark, mark] && atGap (c.rest.drop 3)

def atDocumentMarks (c : Cursor) : Bool := c.atMarks '-' || c.atMarks '.'

/-- Blanks and a comment, up to the end of a line. None where something else stands there. -/
def skipToLineEnd? (c : Cursor) : Option Cursor :=
  let c := c.skipWhile Text.isSpaceOrTab
  let c := if c.rest.head? == some '#' then c.skipWhile (!isBreak ·) else c
  if atLineEnd c.rest then some ((c.newLine?.map Prod.snd).getD c) else none

end Cursor

/-- Line breaks between two words: one alone becomes a blank, and of several the first goes.
Separators of lines and paragraphs stay. -/
def foldBreaks (first : Option Char) (more : List Char) : List Char :=
  if first = some '\n' then if more.isEmpty then [' '] else more
  else first.toList ++ more

/-- What stands between two words: blanks on one line, or line breaks. -/
structure Gap where
  blanks : List Char := []
  broken : Bool := false
  first : Option Char := none
  more : List Char := []

namespace Gap

def text (gap : Gap) : List Char :=
  if gap.broken then foldBreaks gap.first gap.more else gap.blanks

/-- Blanks and line breaks at the cursor, after those of a gap. None where a tab stands in the
first columns of a new line. -/
def take? (indent : Nat) : (steps : Nat) → Gap → Cursor → Option (Gap × Cursor)
  | 0, gap, c => some (gap, c)
  | steps + 1, gap, c =>
      match c.newLine? with
      | some (kept, next) =>
          if gap.broken then take? indent steps { gap with more := gap.more ++ [kept] } next
          else take? indent steps { broken := true, first := some kept } next
      | none =>
          match c.rest with
          | ' ' :: _ | '\t' :: _ =>
              if !gap.broken then
                take? indent steps { gap with blanks := gap.blanks ++ c.rest.take 1 } (c.skip 1)
              else if c.rest.head? == some '\t' && c.column < indent then none
              else take? indent steps gap (c.skip 1)
          | _ => some (gap, c)

end Gap

end Stencil.Yaml
