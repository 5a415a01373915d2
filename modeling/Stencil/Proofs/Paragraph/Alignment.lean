import Stencil.Paragraph.Alignment

/-! Where a stretch of the joined text lies in the fragments: within one of them, or from the end of
one over whole ones to the beginning of another. The walk over the fragments finds just the spans
that cover it, and stays in the fragment that it ends in. -/

namespace Stencil

namespace Text

theorem bytes_pos {text : List Char} (nonempty : text ≠ []) : 0 < bytes text := by
  cases text with
  | nil => exact absurd rfl nonempty
  | cons c rest =>
      have positive := Char.utf8Size_pos c
      rw [bytes]
      omega

theorem bytes_eq_zero_iff {text : List Char} : bytes text = 0 ↔ text = [] := by
  refine ⟨fun nothing => ?_, fun empty => by rw [empty, bytes]⟩
  by_cases empty : text = []
  · exact empty
  · exact absurd nothing (Nat.ne_of_gt (bytes_pos empty))

/-- The text of all fragments, one after the other. -/
def concat (fragments : List String) : List Char := fragments.flatMap String.toList

@[simp] theorem concat_nil : concat [] = [] := rfl

@[simp] theorem concat_cons (fragment : String) (rest : List String) :
    concat (fragment :: rest) = fragment.toList ++ concat rest := List.flatMap_cons ..

@[simp] theorem concat_append (front back : List String) :
    concat (front ++ back) = concat front ++ concat back := List.flatMap_append ..

end Text

open Text

/-- The spans of whole fragments. Empty ones have none. -/
def Span.whole (index : Nat) : List String → List Span
  | [] => []
  | fragment :: rest =>
      if fragment.toList = [] then whole (index + 1) rest
      else ⟨index, 0, bytes fragment.toList⟩ :: whole (index + 1) rest

theorem Span.whole_append (index : Nat) (front back : List String) :
    whole index (front ++ back) = whole index front ++ whole (index + front.length) back := by
  induction front generalizing index with
  | nil => rfl
  | cons fragment rest ih =>
      have place : index + 1 + rest.length = index + (fragment :: rest).length := by
        rw [List.length_cons]
        omega
      rw [List.cons_append, whole, whole, ih, place]
      split
      · rfl
      · rw [List.cons_append]

theorem Span.whole_eq_nil {fragments : List String} (empty : concat fragments = [])
    (index : Nat) : whole index fragments = [] := by
  induction fragments generalizing index with
  | nil => rfl
  | cons fragment rest ih =>
      obtain ⟨here, later⟩ := List.append_eq_nil_iff.1 empty
      rw [whole, if_pos here]
      exact ih later (index + 1)

namespace Cursor

/-- A stretch `key` behind `front` in the text of fragments, the spans that cover it, and where a
walk that starts at the first of these fragments is then. -/
inductive Lies (index offset : Nat) (fragments : List String) (front key : List Char)
    (spans : List Span) (cursor : Cursor) : Prop
  | within (before rest : List String) (fragment : String) (head behind : List Char)
      (split : fragments = before ++ fragment :: rest)
      (start : front = concat before ++ head)
      (text : fragment.toList = head ++ key ++ behind)
      (covers : spans = [⟨index + before.length, bytes head, bytes key⟩])
      (stays : cursor = ⟨index + before.length, offset + bytes (concat before), fragment :: rest⟩)
  | across (before between rest : List String) (first last : String)
      (head opening closing behind : List Char)
      (split : fragments = before ++ first :: between ++ last :: rest)
      (start : front = concat before ++ head)
      (covered : key = opening ++ concat between ++ closing)
      (textFirst : first.toList = head ++ opening)
      (textLast : last.toList = closing ++ behind)
      (opens : opening ≠ [])
      (closes : closing ≠ [])
      (covers : spans = ⟨index + before.length, bytes head, bytes opening⟩ ::
        (Span.whole (index + before.length + 1) between ++
          [⟨index + before.length + 1 + between.length, 0, bytes closing⟩]))
      (stays : cursor = ⟨index + before.length + 1 + between.length,
        offset + bytes (concat (before ++ first :: between)), last :: rest⟩)

variable {index offset : Nat} {fragments : List String} {front key behind : List Char}
  {fragment : String} {spans : List Span} {cursor : Cursor}

/-- A fragment that the stretch lies behind is passed. -/
theorem Lies.pass
    (lies : Lies (index + 1) (offset + bytes fragment.toList) fragments front key spans cursor) :
    Lies index offset (fragment :: fragments) (fragment.toList ++ front) key spans cursor := by
  cases lies with
  | within before rest piece head behind split start text covers stays =>
      refine .within (fragment :: before) rest piece head behind ?_ ?_ text ?_ ?_
      · rw [split, List.cons_append]
      · rw [start, concat_cons, List.append_assoc]
      · rw [covers, List.length_cons, Nat.add_assoc, Nat.add_comm 1]
      · rw [stays, List.length_cons, concat_cons, bytes_append, Nat.add_assoc, Nat.add_comm 1,
          Nat.add_assoc]
  | across before between rest first last head opening closing behind split start covered
      textFirst textLast opens closes covers stays =>
      refine .across (fragment :: before) between rest first last head opening closing behind
        ?_ ?_ covered textFirst textLast opens closes ?_ ?_
      · rw [split, List.cons_append, List.cons_append]
      · rw [start, concat_cons, List.append_assoc]
      · rw [covers, List.length_cons, Nat.add_assoc index, Nat.add_comm 1]
      · rw [stays, List.length_cons, List.cons_append, concat_cons, bytes_append, Nat.add_assoc index,
          Nat.add_comm 1, Nat.add_assoc offset]

/-- A stretch that begins at the end of a fragment goes on from the start of the next. -/
theorem Lies.begin {head opening : List Char} (text : fragment.toList = head ++ opening)
    (opens : opening ≠ []) (goes : key ≠ [])
    (lies : Lies (index + 1) (offset + bytes fragment.toList) fragments [] key spans cursor) :
    Lies index offset (fragment :: fragments) head (opening ++ key)
      (⟨index, bytes head, bytes opening⟩ :: spans) cursor := by
  cases lies with
  | within before rest piece inner behind split start textPiece covers stays =>
      obtain ⟨empty, rfl⟩ := List.append_eq_nil_iff.1 start.symm
      refine .across [] before rest fragment piece head opening key behind ?_ rfl ?_ text
        textPiece opens goes ?_ ?_
      · rw [split, List.nil_append, List.cons_append]
      · rw [empty, List.append_nil]
      · rw [covers, Span.whole_eq_nil empty]
        rfl
      · rw [stays, List.nil_append, concat_cons, bytes_append, Nat.add_assoc offset]
        rfl
  | across before between rest first last inner opening' closing behind split start covered
      textFirst textLast opens' closes covers stays =>
      obtain ⟨empty, rfl⟩ := List.append_eq_nil_iff.1 start.symm
      have whole : first.toList = opening' := textFirst
      have filled : first.toList ≠ [] := by rw [whole]; exact opens'
      refine .across [] (before ++ first :: between) rest fragment last head opening closing behind
        ?_ rfl ?_ text textLast opens closes ?_ ?_
      · rw [split, List.nil_append, List.cons_append]
      · rw [covered, concat_append, concat_cons, empty, whole, List.nil_append]
        simp only [List.append_assoc]
      · rw [covers, Span.whole_append, Span.whole_eq_nil empty, Span.whole, if_neg filled, whole]
        simp only [List.length_nil, List.length_append, List.length_cons, List.nil_append,
          List.cons_append, Nat.add_zero, bytes]
        congr 5
        omega
      · rw [stays, List.nil_append, concat_cons, bytes_append, Nat.add_assoc offset]
        simp only [List.length_nil, List.length_append, List.length_cons]
        congr 1
        omega

/-- Where a stretch begins makes no difference to the fragments behind its beginning. -/
theorem cover_of_le {first last : Nat} (early : first ≤ offset) :
    cover first last index offset fragments = cover offset last index offset fragments := by
  induction fragments generalizing index offset first with
  | nil => rfl
  | cons fragment rest ih =>
      have same : overlap first last index offset (bytes fragment.toList) =
          overlap offset last index offset (bytes fragment.toList) := by
        rw [overlap, Nat.max_eq_right early, overlap, Nat.max_self]
      have later : cover first last (index + 1) (offset + bytes fragment.toList) rest =
          cover offset last (index + 1) (offset + bytes fragment.toList) rest := by
        rw [ih (Nat.le_add_right_of_le early), ih (Nat.le_add_right ..)]
      rw [cover, cover, same, later]

/-- The walk finds a stretch of the text where it lies. -/
def Finds (index offset : Nat) (fragments : List String) (front key : List Char) : Prop :=
  Lies index offset fragments front key
    (cover (offset + bytes front) (offset + bytes front + bytes key) index offset fragments).1
    (cover (offset + bytes front) (offset + bytes front + bytes key) index offset fragments).2

namespace Finds

variable {rest : List String} {head opening later : List Char}

/-- The stretch lies behind a fragment. -/
theorem pass (goes : key ≠ [])
    (finds : Finds (index + 1) (offset + bytes fragment.toList) rest later key) :
    Finds index offset (fragment :: rest) (fragment.toList ++ later) key := by
  have positive := bytes_pos goes
  have nothing : overlap (offset + bytes (fragment.toList ++ later))
      (offset + bytes (fragment.toList ++ later) + bytes key) index offset
      (bytes fragment.toList) = [] := by
    rw [bytes_append, overlap, if_neg (by omega)]
  rw [Finds, cover]
  dsimp only
  rw [nothing, List.nil_append, if_neg (by rw [bytes_append]; omega), bytes_append,
    ← Nat.add_assoc]
  exact Lies.pass finds

/-- The stretch begins and ends in a fragment. -/
theorem within (goes : key ≠ []) (text : fragment.toList = head ++ (key ++ behind)) :
    Finds index offset (fragment :: rest) head key := by
  have positive := bytes_pos goes
  have size : bytes fragment.toList = bytes head + (bytes key + bytes behind) := by
    rw [text, bytes_append, bytes_append]
  have whole : overlap (offset + bytes head) (offset + bytes head + bytes key) index offset
      (bytes fragment.toList) = [⟨index, bytes head, bytes key⟩] := by
    rw [overlap, Nat.max_eq_left (by omega), Nat.min_eq_left (by omega),
      if_pos (by omega), Nat.add_sub_cancel_left, Nat.add_sub_cancel_left]
  rw [Finds, cover]
  dsimp only
  rw [if_pos (by omega), whole]
  refine .within [] rest fragment head behind rfl rfl ?_ rfl rfl
  rw [text, List.append_assoc]

/-- The stretch begins in a fragment, and the rest of it begins with the next one. -/
theorem begin (text : fragment.toList = head ++ opening) (opens : opening ≠ [])
    (goes : later ≠ [])
    (finds : Finds (index + 1) (offset + bytes fragment.toList) rest [] later) :
    Finds index offset (fragment :: rest) head (opening ++ later) := by
  have positiveOpening := bytes_pos opens
  have positiveLater := bytes_pos goes
  have size : bytes fragment.toList = bytes head + bytes opening := by rw [text, bytes_append]
  have opened : overlap (offset + bytes head) (offset + bytes head + bytes (opening ++ later)) index
      offset (bytes fragment.toList) = [⟨index, bytes head, bytes opening⟩] := by
    rw [bytes_append, overlap, Nat.max_eq_left (by omega), Nat.min_eq_right (by omega),
      if_pos (by omega), Nat.add_sub_cancel_left]
    congr 2
    omega
  have stop : offset + bytes head + bytes (opening ++ later) =
      offset + bytes fragment.toList + bytes [] + bytes later := by
    rw [bytes_append, size, bytes]
    omega
  rw [Finds, cover]
  dsimp only
  rw [opened, if_neg (by rw [bytes_append]; omega), cover_of_le (by omega), stop]
  exact Lies.begin text opens goes finds

end Finds

theorem finds_of_text (goes : key ≠ []) (text : concat fragments = front ++ (key ++ behind)) :
    Finds index offset fragments front key := by
  induction fragments generalizing index offset front key with
  | nil =>
      obtain ⟨-, rest⟩ := List.append_eq_nil_iff.1 text.symm
      exact absurd (List.append_eq_nil_iff.1 rest).1 goes
  | cons fragment rest ih =>
      rw [concat_cons, List.append_eq_append_iff] at text
      by_cases passed : ∃ later, front = fragment.toList ++ later ∧
          concat rest = later ++ (key ++ behind)
      · obtain ⟨later, rfl, following⟩ := passed
        exact .pass goes (ih goes following)
      · obtain ⟨later, rfl, following⟩ | ⟨opening, here, goesOn⟩ := text
        · exact absurd ⟨later, rfl, following⟩ passed
        have opens : opening ≠ [] := by
          rintro rfl
          refine passed ⟨[], ?_, goesOn.symm⟩
          rw [here, List.append_nil, List.append_nil]
        rw [List.append_eq_append_iff] at goesOn
        by_cases inside : ∃ later, opening = key ++ later
        · obtain ⟨later, rfl⟩ := inside
          exact .within goes here
        · obtain ⟨later, rfl, -⟩ | ⟨later, rfl, following⟩ := goesOn
          · exact absurd ⟨later, rfl⟩ inside
          have goesLater : later ≠ [] := by
            rintro rfl
            exact inside ⟨[], by rw [List.append_nil, List.append_nil]⟩
          exact .begin here opens goesLater (ih goesLater following)

theorem Lies.pass_all {before : List String}
    (lies : Lies (index + before.length) (offset + bytes (concat before)) fragments front key spans
      cursor) :
    Lies index offset (before ++ fragments) (concat before ++ front) key spans cursor := by
  induction before generalizing index offset with
  | nil => exact lies
  | cons fragment rest ih =>
      rw [List.length_cons, concat_cons, bytes_append, Nat.add_comm _ 1, ← Nat.add_assoc,
        ← Nat.add_assoc] at lies
      rw [List.cons_append, concat_cons, List.append_assoc]
      exact (ih lies).pass

/-- A placeholder that was aligned lies where its range and its spans say. -/
theorem lies_of_mem_alignAll {found : List Piece} {alignment : Alignment}
    (text : concat fragments = front ++ found.flatMap Piece.text)
    (member : alignment ∈ (Cursor.mk index offset fragments).alignAll
      (Occurrence.among (offset + bytes front) found)) :
    ∃ (p : Placeholder) (before : List Char) (cursor : Cursor),
      alignment.key = String.ofList p.text ∧ alignment.start = offset + bytes before ∧
        alignment.stop = alignment.start + bytes p.text ∧
        Lies index offset fragments before p.text alignment.spans cursor := by
  induction found generalizing index offset fragments front with
  | nil => cases member
  | cons piece rest ih =>
      cases piece with
      | plain c =>
          have place : offset + bytes front + c.utf8Size = offset + bytes (front ++ [c]) := by
            simp only [bytes_append, bytes]
            omega
          rw [Occurrence.among, place] at member
          exact ih (by rw [text, List.append_assoc]; rfl) member
      | placeholder p =>
          change concat fragments = front ++ (p.text ++ rest.flatMap Piece.text) at text
          have lies := @finds_of_text index offset _ _ _ _ p.text_ne_nil text
          rw [Finds] at lies
          rw [Occurrence.among, alignAll] at member
          dsimp only [Occurrence.stop] at member
          generalize cover _ _ _ _ _ = covered at lies member
          obtain ⟨spans, later⟩ := covered
          rcases List.mem_cons.1 member with rfl | behind
          · exact ⟨p, front, later, rfl, rfl, rfl, lies⟩
          -- the later ones are aligned from the fragment on that this one ends in
          cases lies with
          | within before others fragment head tail split start inside covers stays =>
              dsimp only at stays
              subst stays split start
              have place : offset + bytes (concat before ++ head) + bytes p.text =
                  offset + bytes (concat before) + bytes (head ++ p.text) := by
                simp only [bytes_append]
                omega
              rw [place] at behind
              have following : concat (fragment :: others) =
                  head ++ p.text ++ rest.flatMap Piece.text := by
                simpa using text
              obtain ⟨q, front', last, key, starts, stops, lies⟩ := ih following behind
              refine ⟨q, concat before ++ front', last, key, ?_, stops, lies.pass_all⟩
              rw [starts, bytes_append, Nat.add_assoc]
          | across before between others first last head opening closing tail split start covered
              textFirst textLast opens closes covers stays =>
              dsimp only at stays
              subst stays split start
              have place : offset + bytes (concat before ++ head) + bytes p.text =
                  offset + bytes (concat (before ++ first :: between)) + bytes closing := by
                simp only [covered, concat_append, concat_cons, textFirst, bytes_append]
                omega
              rw [place] at behind
              have following : concat (last :: others) = closing ++ rest.flatMap Piece.text := by
                simpa [covered, textFirst] using text
              obtain ⟨q, front', last', key, starts, stops, lies⟩ := ih following behind
              have count : index + before.length + 1 + between.length =
                  index + (before ++ first :: between).length := by
                simp only [List.length_append, List.length_cons]
                omega
              rw [count] at lies
              refine ⟨q, concat (before ++ first :: between) ++ front', last', key, ?_, stops,
                lies.pass_all⟩
              rw [starts, bytes_append, Nat.add_assoc]

end Cursor

theorem lies_of_mem_align {kind : PlaceholderKind} {fragments : List String}
    {alignment : Alignment} (member : alignment ∈ align kind fragments) :
    ∃ (p : Placeholder) (before : List Char) (cursor : Cursor),
      alignment.key = String.ofList p.text ∧ alignment.start = bytes before ∧
        alignment.stop = alignment.start + bytes p.text ∧
        Cursor.Lies 0 0 fragments before p.text alignment.spans cursor := by
  have text : concat fragments =
      [] ++ (pieces kind (String.ofList (concat fragments)).toList).flatMap Piece.text := by
    rw [flatMap_text_pieces, String.toList_ofList, List.nil_append]
  obtain ⟨p, before, cursor, key, start, stop, lies⟩ := Cursor.lies_of_mem_alignAll text member
  exact ⟨p, before, cursor, key, start.trans (Nat.zero_add _), stop, lies⟩

end Stencil
