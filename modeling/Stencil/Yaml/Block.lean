import Stencil.Yaml.Cursor

/-! Scalars written as indented lines: literal ones keep their lines, folded ones join them. -/

namespace Stencil.Yaml

/-- What becomes of the line breaks at the end. -/
inductive Chomp where
  | strip
  | clip
  | keep
  deriving DecidableEq, Repr

structure BlockHeader where
  chomp : Chomp := .clip
  /-- The indentation below the surrounding one, where it is given. -/
  increment : Option Nat := none

private def chomp? : Char → Option Chomp
  | '-' => some .strip
  | '+' => some .keep
  | _ => none

private def increment? (c : Char) : Option Nat :=
  if c.isDigit then some (c.toNat - '0'.toNat) else none

/-- The header that a text starts with, its two parts in any order, and its length. An
indentation of zero is refused. -/
def blockHeader? (text : List Char) : Option (BlockHeader × Nat) :=
  let (header, length) : BlockHeader × Nat :=
    match text with
    | a :: rest =>
        let second := rest.head?
        match chomp? a, increment? a with
        | some chomp, _ =>
            match second.bind increment? with
            | some n => (⟨chomp, some n⟩, 2)
            | none => (⟨chomp, none⟩, 1)
        | none, some n =>
            match second.bind chomp? with
            | some chomp => (⟨chomp, some n⟩, 2)
            | none => (⟨.clip, some n⟩, 1)
        | none, none => ({}, 0)
    | [] => ({}, 0)
  if header.increment = some 0 then none else some (header, length)

/-- The empty lines at the cursor, the blanks before the next other line, and the greatest
column met. Where the indentation is not known, all blanks count. -/
def takeEmptyLines? (indent : Option Nat) :
    (steps : Nat) → (widest : Nat) → (breaks : List Char) → Cursor →
      Option ((Nat × List Char) × Cursor)
  | 0, _, _, _ => none
  | steps + 1, widest, breaks, c =>
      let spaces := (c.rest.takeWhile (· == ' ')).length
      let c := c.skip (match indent with
        | some n => min spaces (n - c.column)
        | none => spaces)
      let widest := max widest c.column
      if c.rest.head? == some '\t' && indent.all (c.column < ·) then none
      else
        match c.newLine? with
        | some (kept, next) => takeEmptyLines? indent steps widest (breaks ++ [kept]) next
        | none => some ((widest, breaks), c)

/-- A scalar while its lines are read: what is settled, and the breaks behind the last line. -/
structure BlockText where
  settled : List Char := []
  last : Option Char := none
  more : List Char := []
  /-- Whether the last line starts with a blank, so that it is not folded. -/
  blankLed : Bool := false

/-- Add a line. Breaks between two lines that start with a word are folded. -/
def BlockText.push (text : BlockText) (folds : Bool) (line : List Char) : List Char :=
  let blankLed := line.head?.any Text.isSpaceOrTab
  text.settled ++ (if folds && !text.blankLed && !blankLed then foldBreaks text.last text.more
    else text.last.toList ++ text.more) ++ line

def takeLines? (folds : Bool) (indent : Nat) :
    (steps : Nat) → BlockText → Cursor → Option (BlockText × Cursor)
  | 0, text, c => some (text, c)
  | steps + 1, text, c =>
      if c.column != indent || c.rest.isEmpty then some (text, c)
      else do
        let (line, c) := c.takeWhile (!isBreak ·)
        let (last, c) := match c.newLine? with
          | some (kept, next) => (some kept, next)
          | none => (none, c)
        let ((_, more), c) ← takeEmptyLines? (some indent) (c.rest.length + 1) 0 [] c
        takeLines? folds indent steps
          ⟨text.push folds line, last, more, line.head?.any Text.isSpaceOrTab⟩ c

/-- The rest of a scalar behind its mark; `outer` is the surrounding indentation. -/
def takeBlock? (folds : Bool) (outer : Int) (c : Cursor) : Option (List Char × Cursor) := do
  let (header, length) ← blockHeader? c.rest
  let c ← (c.skip length).skipToLineEnd?
  let given := header.increment.map fun n => (max outer 0).toNat + n
  let ((widest, breaks), c) ← takeEmptyLines? given (c.rest.length + 1) 0 [] c
  let indent := given.getD (max widest (max (outer + 1) 1).toNat)
  let (text, c) ← takeLines? folds indent (c.rest.length + 1) { more := breaks } c
  let tail := match header.chomp with
    | .strip => []
    | .clip => text.last.toList
    | .keep => text.last.toList ++ text.more
  return (text.settled ++ tail, c)

end Stencil.Yaml
