import Stencil.Fill.TableExpansion
import Stencil.Proofs.Paragraph.Scalars

/-! Splicing seen from the characters of a paragraph. The run in which a placeholder begins takes
the text that is put in its place, what is behind the placeholder stays in its own run, and runs
that held nothing but a part of the placeholder go. All other runs stay as they are. -/

namespace Stencil

open Text

namespace Paragraph

/-- Take characters from the beginning of runs. Runs that are used up go. -/
def dropChars : Nat → List Run → List Run
  | 0, runs => runs
  | _ + 1, [] => []
  | n + 1, run :: rest =>
      let chars := run.text.toList
      if chars.length ≤ n + 1 then dropChars (n + 1 - chars.length) rest
      else { run with text := String.ofList (chars.drop (n + 1)) } :: rest

/-- Put a text in the place of `size` characters, of which the first has `place` characters before
it. -/
def exchange (text : String) (size : Nat) : Nat → List Run → List Run
  | _, [] => []
  | place, run :: rest =>
      let chars := run.text.toList
      let front := String.ofList (chars.take place) ++ text
      if chars.length ≤ place then run :: exchange text size (place - chars.length) rest
      else if place + size ≤ chars.length then
        { run with text := front ++ String.ofList (chars.drop (place + size)) } :: rest
      else { run with text := front } :: dropChars (place + size - chars.length) rest

theorem dropChars_cons_of_le {n : Nat} {run : Run} (short : run.text.toList.length ≤ n)
    (positive : 0 < n) (rest : List Run) :
    dropChars n (run :: rest) = dropChars (n - run.text.toList.length) rest := by
  obtain ⟨m, rfl⟩ := Nat.exists_eq_succ_of_ne_zero (Nat.ne_of_gt positive)
  rw [dropChars, if_pos short]

/-- The rest of the last run that is reached stays, unless it is empty. -/
theorem dropChars_across {between rest : List Run} {last : Run} {closing behind : List Char}
    (text : last.text.toList = closing ++ behind) (closes : closing ≠ []) :
    dropChars (concatText between ++ closing).length (between ++ last :: rest) =
      if behind = [] then rest else { last with text := String.ofList behind } :: rest := by
  have positive := List.length_pos_iff.2 closes
  induction between with
  | nil =>
      rw [concatText_nil, List.nil_append, List.nil_append]
      by_cases empty : behind = []
      · have short : last.text.toList.length = closing.length := by
          rw [text, empty, List.append_nil]
        rw [if_pos empty, dropChars_cons_of_le (Nat.le_of_eq short) positive, short, Nat.sub_self,
          dropChars]
      · have long := List.length_pos_iff.2 empty
        obtain ⟨n, size⟩ := Nat.exists_eq_succ_of_ne_zero (Nat.ne_of_gt positive)
        have more : ¬ last.text.toList.length ≤ n + 1 := by
          rw [text, List.length_append]
          omega
        have left : last.text.toList.drop (n + 1) = behind := by
          rw [text, ← Nat.succ_eq_add_one, ← size, List.drop_left]
        rw [if_neg empty, size, dropChars, if_neg more, left]
  | cons run more ih =>
      have size : (concatText (run :: more) ++ closing).length =
          run.text.toList.length + (concatText more ++ closing).length := by
        rw [concatText_cons, List.append_assoc, List.length_append]
      rw [size, List.cons_append, dropChars_cons_of_le (Nat.le_add_right ..),
        Nat.add_sub_cancel_left, ih]
      rw [List.length_append]
      omega

/-- Runs before the place stay. -/
theorem exchange_append (text : String) (size place : Nat) (passed rest : List Run) :
    exchange text size ((concatText passed).length + place) (passed ++ rest) =
      passed ++ exchange text size place rest := by
  induction passed with
  | nil => rw [concatText_nil, List.length_nil, Nat.zero_add, List.nil_append, List.nil_append]
  | cons run more ih =>
      have whole : (concatText (run :: more)).length + place =
          run.text.toList.length + ((concatText more).length + place) := by
        rw [concatText_cons, List.length_append, Nat.add_assoc]
      rw [whole, List.cons_append, exchange, if_pos (Nat.le_add_right ..), Nat.add_sub_cancel_left,
        ih, List.cons_append]

/-- Splicing an alignment is the exchange of the characters where it lies. -/
theorem splice_of_lies {p : Paragraph} {alignment : Alignment} {front key : List Char}
    {cursor : Cursor} (goes : key ≠ [])
    (lies : Cursor.Lies 0 0 p.fragments front key alignment.spans cursor) (replacement : String) :
    p.splice alignment replacement =
      .done ⟨exchange replacement key.length front.length p.runs⟩ () := by
  obtain ⟨runs⟩ := p
  have positive := List.length_pos_iff.2 goes
  have inRuns : LiesIn 0 0 runs front key alignment.spans cursor := .of_lies lies
  cases inRuns with
  | within passed later run head behind split start text covers stays =>
      subst split
      rw [Nat.zero_add] at covers
      rw [splice_within replacement text covers, start, List.length_append]
      change _ = Attempt.done (Paragraph.mk (exchange _ _ ((concatText passed).length + _) _)) ()
      have size : run.text.toList.length = head.length + key.length + behind.length := by
        rw [text, List.length_append, List.length_append]
      rw [exchange_append, exchange, if_neg (by omega), if_pos (by omega), text,
        ← List.length_append, List.drop_left, List.append_assoc, List.take_left]
  | across passed inner later run run' head opening closing behind split start covered
      textFirst textLast opens closes covers stays =>
      subst split
      rw [Nat.zero_add] at covers
      have size : run.text.toList.length = head.length + opening.length := by
        rw [textFirst, List.length_append]
      have keySize : key.length = opening.length + (concatText inner ++ closing).length := by
        rw [covered, List.append_assoc, List.length_append]
      have positiveOpening := List.length_pos_iff.2 opens
      have positiveClosing := List.length_pos_iff.2 closes
      have reached : ¬ run.text.toList.length ≤ head.length := by omega
      have goesOn : ¬ head.length + key.length ≤ run.text.toList.length := by
        rw [keySize, List.length_append]
        omega
      have left : head.length + key.length - run.text.toList.length =
          (concatText inner ++ closing).length := by omega
      rw [splice_across replacement textFirst textLast rfl covers, start, List.length_append,
        List.append_assoc, List.cons_append]
      change _ = Attempt.done (Paragraph.mk (exchange _ _ ((concatText passed).length + _) _)) ()
      rw [exchange_append, exchange, if_neg reached, if_neg goesOn, left, textFirst, List.take_left,
        dropChars_across textLast closes]

end Paragraph

/-! ### The first placeholder -/

/-- The first placeholder among pieces, and the number of characters before it. -/
def Piece.firstPlace? : List Piece → Option (Nat × Placeholder)
  | [] => none
  | .plain _ :: rest => (firstPlace? rest).map fun (place, p) => (place + 1, p)
  | .placeholder p :: _ => some (0, p)

theorem Piece.firstPlace?_eq_none_iff {found : List Piece} (offset : Nat) :
    firstPlace? found = none ↔ Occurrence.among offset found = [] := by
  induction found generalizing offset with
  | nil => simp [firstPlace?, Occurrence.among]
  | cons piece rest ih =>
      cases piece with
      | plain c => rw [firstPlace?, Option.map_eq_none_iff, Occurrence.among, ih]
      | placeholder p => simp [firstPlace?, Occurrence.among]

/-- The first placeholder stands where its text begins. -/
theorem Piece.split_of_firstPlace? {found : List Piece} {place : Nat} {p : Placeholder}
    (first : firstPlace? found = some (place, p)) (offset : Nat) :
    ∃ front behind later, found.flatMap Piece.text = front ++ (p.text ++ behind) ∧
      front.length = place ∧
      Occurrence.among offset found = ⟨offset + bytes front, p⟩ :: later := by
  induction found generalizing offset place with
  | nil => cases first
  | cons piece rest ih =>
      cases piece with
      | plain c =>
          obtain ⟨⟨before, q⟩, inRest, same⟩ := Option.map_eq_some_iff.1 first
          cases same
          obtain ⟨front, behind, later, text, size, among⟩ := ih inRest (offset + c.utf8Size)
          refine ⟨c :: front, behind, later, ?_, by rw [List.length_cons, size], ?_⟩
          · rw [List.flatMap_cons, text]
            rfl
          · rw [Occurrence.among, among, bytes, Nat.add_assoc]
      | placeholder q =>
          cases first
          exact ⟨[], rest.flatMap Piece.text, _, rfl, rfl, rfl⟩

namespace Paragraph

/-- The paragraph with a text in the place of its first collection placeholder. -/
def exchangeFirst? (text : String) (p : Paragraph) : Option Paragraph :=
  (Piece.firstPlace? (pieces .collection p.text.toList)).map fun (place, placeholder) =>
    ⟨exchange text placeholder.text.length place p.runs⟩

theorem exchangeFirst?_eq_none_iff (text : String) (p : Paragraph) :
    p.exchangeFirst? text = none ↔ align .collection p.fragments = [] := by
  rw [exchangeFirst?, Option.map_eq_none_iff, Piece.firstPlace?_eq_none_iff 0, align,
    ofList_fragments]
  change _ ↔ (Cursor.start p.fragments).alignAll (Occurrence.among 0 _) = []
  cases Occurrence.among 0 (pieces .collection p.text.toList) <;> simp [Cursor.alignAll]

/-- Splicing the first alignment puts the text in the place of the first placeholder. -/
theorem splice_first {p q : Paragraph} {text : String}
    (exchanged : p.exchangeFirst? text = some q) :
    ∃ first more, align .collection p.fragments = first :: more ∧
      p.splice first text = .done q () := by
  obtain ⟨⟨place, placeholder⟩, first, rfl⟩ := Option.map_eq_some_iff.1 exchanged
  obtain ⟨front, behind, later, split, rfl, among⟩ := Piece.split_of_firstPlace? first 0
  have goes := placeholder.text_ne_nil
  have chars : concat p.fragments = front ++ (placeholder.text ++ behind) := by
    rw [← split, flatMap_text_pieces, toList_text]
    rfl
  have lies := @Cursor.finds_of_text 0 0 _ _ _ _ goes chars
  rw [Cursor.Finds] at lies
  have aligned : align .collection p.fragments =
      (Cursor.start p.fragments).alignAll (⟨0 + bytes front, placeholder⟩ :: later) := by
    rw [align, ofList_fragments, occurrences, among]
  rw [aligned, Cursor.alignAll]
  exact ⟨_, _, rfl, splice_of_lies goes lies text⟩

end Paragraph

namespace TableCell

/-- The paragraphs with a text in the place of the first placeholder of the first that has one. -/
def exchangeIn (text : String) : List Paragraph → List Paragraph
  | [] => []
  | p :: rest =>
      match p.exchangeFirst? text with
      | some q => q :: rest
      | none => p :: exchangeIn text rest

/-- The cell with a text in the place of its first collection placeholder. -/
def exchangeFirst (cell : TableCell) (text : String) : TableCell :=
  { cell with paragraphs := exchangeIn text cell.paragraphs }

theorem exchangeIn_append {text : String} {front : List Paragraph}
    (none : ∀ p ∈ front, p.exchangeFirst? text = none) (rest : List Paragraph) :
    exchangeIn text (front ++ rest) = front ++ exchangeIn text rest := by
  induction front with
  | nil => rfl
  | cons p more ih =>
      rw [List.cons_append, exchangeIn, none p (List.mem_cons_self ..)]
      dsimp only
      rw [ih fun q member => none q (List.mem_cons_of_mem _ member), List.cons_append]

theorem substituteFirst_eq (cell : TableCell) (text : String) :
    cell.substituteFirst text = .done (cell.exchangeFirst text) () := by
  rw [exchangeFirst]
  cases first : cell.paragraphs.find? fun p => (p.exchangeFirst? text).isSome with
  | none =>
      have plain : ∀ p ∈ cell.paragraphs, p.exchangeFirst? text = none := fun p member => by
        simpa using List.find?_eq_none.1 first p member
      have same : exchangeIn text cell.paragraphs = cell.paragraphs := by
        simpa [exchangeIn] using exchangeIn_append plain []
      rw [same]
      exact substituteFirst_of_none text fun p member =>
        (p.exchangeFirst?_eq_none_iff text).1 (plain p member)
  | some p =>
      obtain ⟨found, front, rest, shape, none⟩ := List.find?_eq_some_iff_append.1 first
      obtain ⟨q, exchanged⟩ := Option.isSome_iff_exists.1 found
      have plain : ∀ p ∈ front, p.exchangeFirst? text = Option.none := fun p member => by
        simpa using none p member
      obtain ⟨alignment, more, aligned, spliced⟩ := Paragraph.splice_first exchanged
      rw [substituteFirst_of_split text shape
        (fun p member => (p.exchangeFirst?_eq_none_iff text).1 (plain p member)) aligned, spliced,
        shape, exchangeIn_append plain, exchangeIn, exchanged]
      rfl

end TableCell

end Stencil
