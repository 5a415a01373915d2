import Stencil.Placeholder.Scan

/-! Where the placeholders of a text lie in the fragments that the text is put together from. -/

namespace Stencil

/-- A stretch of one fragment, in bytes. -/
structure Span where
  fragment : Nat
  start : Nat
  length : Nat
  deriving DecidableEq, Repr

/-- The stretch of a text, none where it is not made of whole characters of the text. -/
def Span.slice? (span : Span) (text : String) : Option (List Char) := do
  let (_, behind) ← Text.cut? span.start text.toList
  let (covered, _) ← Text.cut? span.length behind
  return covered

/-- A placeholder in the joined text and the stretches of fragments that it covers. -/
structure Alignment where
  key : String
  start : Nat
  stop : Nat
  spans : List Span
  deriving DecidableEq, Repr

/-- The covered text, read from the fragments again. Spans that cover nothing readable are
passed over. -/
def Alignment.replay (a : Alignment) (fragments : List String) : String :=
  String.ofList (a.spans.flatMap fun span =>
    (fragments[span.fragment]?.bind span.slice?).getD [])

/-- A position in a walk over fragments: the fragment it is in, the offset of that fragment in
the joined text, and the fragments from there on. -/
structure Cursor where
  index : Nat
  offset : Nat
  ahead : List String

namespace Cursor

def start (fragments : List String) : Cursor := ⟨0, 0, fragments⟩

/-- The overlap of a fragment at an offset with the bytes from `first` to `last`. -/
def overlap (first last index offset size : Nat) : List Span :=
  let low := max first offset
  let high := min last (offset + size)
  if low < high then [⟨index, low - offset, high - low⟩] else []

/-- The spans that cover the bytes from `first` to `last`. The walk stays in the fragment that
it ends in, where the next stretch may begin. -/
def cover (first last : Nat) (index offset : Nat) : List String → List Span × Cursor
  | [] => ([], ⟨index, offset, []⟩)
  | fragment :: rest =>
      let size := Text.bytes fragment.toList
      let here := overlap first last index offset size
      if last ≤ offset + size then (here, ⟨index, offset, fragment :: rest⟩)
      else
        let (others, cursor) := cover first last (index + 1) (offset + size) rest
        (here ++ others, cursor)

/-- Align occurrences, in the order of the text, from a cursor on. -/
def alignAll (cursor : Cursor) : List Occurrence → List Alignment
  | [] => []
  | o :: rest =>
      let (spans, cursor) := cover o.start o.stop cursor.index cursor.offset cursor.ahead
      ⟨String.ofList o.placeholder.text, o.start, o.stop, spans⟩ :: cursor.alignAll rest

end Cursor

/-- Every placeholder of one kind in the joined text, aligned with the fragments. -/
def align (kind : PlaceholderKind) (fragments : List String) : List Alignment :=
  let text := String.ofList (fragments.flatMap String.toList)
  (Cursor.start fragments).alignAll (occurrences kind text)

end Stencil
