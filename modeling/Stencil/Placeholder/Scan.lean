import Stencil.Placeholder.Grammar
import Stencil.Text.Measure

/-! Finding placeholders: the text is read from the left, and where a placeholder of the wanted
kind starts it is taken whole. The pieces together are the text. -/

namespace Stencil

namespace Placeholder

def leadingScalar? : List Char → Option (Placeholder × List Char)
  | '{' :: text =>
      let path := text.takeWhile isPathChar
      match text.dropWhile isPathChar with
      | '}' :: rest => if path.isEmpty then none else some (.scalar path, rest)
      | _ => none
  | _ => none

def leadingCollection? : List Char → Option (Placeholder × List Char)
  | '[' :: text =>
      let path := text.takeWhile isPathChar
      match text.dropWhile isPathChar with
      | ']' :: rest => if isPath path then some (.collection path none, rest) else none
      | '.' :: behind =>
          let property := behind.takeWhile isPathChar
          match behind.dropWhile isPathChar with
          | ']' :: rest =>
              if isPath path && isPath property then some (.collection path (some property), rest)
              else none
          | _ => none
      | _ => none
  | _ => none

/-- The placeholder that a text starts with, and the text behind it. -/
def leading? : PlaceholderKind → List Char → Option (Placeholder × List Char)
  | .scalar => leadingScalar?
  | .collection => leadingCollection?

private theorem run_append {text rest : List Char} {c : Char}
    (behind : text.dropWhile isPathChar = c :: rest) :
    text.takeWhile isPathChar ++ c :: rest = text := by
  rw [← behind, List.takeWhile_append_dropWhile]

theorem text_append_of_leading? {kind : PlaceholderKind} {text rest : List Char}
    {p : Placeholder} (found : leading? kind text = some (p, rest)) : p.text ++ rest = text := by
  cases kind with
  | scalar =>
      change leadingScalar? text = some (p, rest) at found
      unfold leadingScalar? at found
      split at found
      · dsimp only at found
        split at found
        · rename_i behind
          split at found
          · cases found
          · simp only [Option.some.injEq, Prod.mk.injEq] at found
            obtain ⟨rfl, rfl⟩ := found
            simp [Placeholder.text, run_append behind]
        · cases found
      · cases found
  | collection =>
      change leadingCollection? text = some (p, rest) at found
      unfold leadingCollection? at found
      split at found
      · dsimp only at found
        split at found
        · rename_i behind
          split at found
          · simp only [Option.some.injEq, Prod.mk.injEq] at found
            obtain ⟨rfl, rfl⟩ := found
            simp [Placeholder.text, run_append behind]
          · cases found
        · rename_i outer
          split at found
          · rename_i inner
            split at found
            · simp only [Option.some.injEq, Prod.mk.injEq] at found
              obtain ⟨rfl, rfl⟩ := found
              simp [Placeholder.text, run_append inner, run_append outer]
            · cases found
          · cases found
        · cases found
      · cases found

theorem leading?_shorter {kind : PlaceholderKind} {text rest : List Char} {p : Placeholder}
    (found : leading? kind text = some (p, rest)) : rest.length < text.length := by
  have joined := text_append_of_leading? found
  have positive := List.length_pos_iff.2 p.text_ne_nil
  rw [← joined, List.length_append]
  omega

end Placeholder

/-- A placeholder or a character outside of all placeholders. -/
inductive Piece where
  | plain (c : Char)
  | placeholder (p : Placeholder)
  deriving DecidableEq, Repr

namespace Piece

def text : Piece → List Char
  | plain c => [c]
  | placeholder p => p.text

def placeholder? : Piece → Option Placeholder
  | plain _ => none
  | placeholder p => some p

end Piece

def pieces (kind : PlaceholderKind) : List Char → List Piece
  | [] => []
  | c :: rest =>
      match found : Placeholder.leading? kind (c :: rest) with
      | some (p, remaining) =>
          have : remaining.length < (c :: rest).length := Placeholder.leading?_shorter found
          .placeholder p :: pieces kind remaining
      | none => .plain c :: pieces kind rest
termination_by text => text.length
decreasing_by
  · assumption
  · exact Nat.lt_succ_self rest.length

theorem flatMap_text_pieces (kind : PlaceholderKind) (text : List Char) :
    (pieces kind text).flatMap Piece.text = text := by
  fun_induction pieces kind text with
  | case1 => rfl
  | case2 c rest p remaining found _ ih =>
      simp [Piece.text, ih, Placeholder.text_append_of_leading? found]
  | case3 c rest _ ih => simp [Piece.text, ih]

/-- A placeholder with the byte offset at which it starts. -/
structure Occurrence where
  start : Nat
  placeholder : Placeholder
  deriving DecidableEq, Repr

namespace Occurrence

def stop (o : Occurrence) : Nat := o.start + Text.bytes o.placeholder.text

/-- The placeholders among pieces that start at an offset. -/
def among : Nat → List Piece → List Occurrence
  | _, [] => []
  | offset, .plain c :: rest => among (offset + c.utf8Size) rest
  | offset, .placeholder p :: rest => ⟨offset, p⟩ :: among (offset + Text.bytes p.text) rest

end Occurrence

def occurrences (kind : PlaceholderKind) (text : String) : List Occurrence :=
  Occurrence.among 0 (pieces kind text.toList)

def hasPlaceholder (kind : PlaceholderKind) (text : String) : Bool :=
  (pieces kind text.toList).any fun piece => piece.placeholder?.isSome

/-- The path of the first scalar placeholder. -/
def scalarPath? (text : String) : Option String :=
  (pieces .scalar text.toList).findSome? fun
    | .placeholder (.scalar path) => some (String.ofList path)
    | _ => none

/-- A collection placeholder as a fill needs it. -/
structure CollectionUse where
  collection : String
  property : Option String
  start : Nat
  stop : Nat
  deriving DecidableEq, Repr

namespace CollectionUse

def sourceText (use : CollectionUse) : String :=
  match use.property with
  | some property => "[" ++ use.collection ++ "." ++ property ++ "]"
  | none => "[" ++ use.collection ++ "]"

def ofOccurrence? (o : Occurrence) : Option CollectionUse :=
  match o.placeholder with
  | .collection path property =>
      some ⟨String.ofList path, property.map String.ofList, o.start, o.stop⟩
  | .scalar _ => none

end CollectionUse

/-- The first collection placeholder. Later ones in the same text are not looked at. -/
def firstCollection? (text : String) : Option CollectionUse :=
  (occurrences .collection text).findSome? CollectionUse.ofOccurrence?

private def replaceFirstIn (replacement : List Char) : List Piece → List Char
  | [] => []
  | .plain c :: rest => c :: replaceFirstIn replacement rest
  | .placeholder _ :: rest => replacement ++ rest.flatMap Piece.text

/-- The text with its first placeholder exchanged for a replacement, taken as it is. -/
def replaceFirst (kind : PlaceholderKind) (text replacement : String) : String :=
  String.ofList (replaceFirstIn replacement.toList (pieces kind text.toList))

theorem replaceFirst_of_split {kind : PlaceholderKind} {text : String} {front rest : List Piece}
    {p : Placeholder} (split : pieces kind text.toList = front ++ .placeholder p :: rest)
    (plain : ∀ piece ∈ front, piece.placeholder? = none) (replacement : String) :
    replaceFirst kind text replacement =
      String.ofList (front.flatMap Piece.text) ++ replacement ++
        String.ofList (rest.flatMap Piece.text) := by
  have replaced : ∀ front : List Piece, (∀ piece ∈ front, piece.placeholder? = none) →
      replaceFirstIn replacement.toList (front ++ .placeholder p :: rest) =
        front.flatMap Piece.text ++ (replacement.toList ++ rest.flatMap Piece.text) := by
    intro front plain
    induction front with
    | nil => rfl
    | cons piece more ih =>
        cases piece with
        | placeholder q => cases plain _ (List.mem_cons_self ..)
        | plain c =>
            rw [List.cons_append, replaceFirstIn, List.flatMap_cons,
              ih fun piece member => plain piece (List.mem_cons_of_mem _ member)]
            rfl
  rw [replaceFirst, split, replaced front plain, String.ofList_append, String.ofList_append,
    String.ofList_toList, String.append_assoc]

end Stencil
