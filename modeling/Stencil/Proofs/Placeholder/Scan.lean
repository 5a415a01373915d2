import Stencil.Placeholder.Classify

/-! The pieces of a text hold well formed placeholders of the wanted kind and nothing else, and a
well formed placeholder is read back whole from what it is written as. -/

namespace Stencil

namespace Path

theorem exists_segment {mark c : Char} {text : List Char} (member : c ∈ text)
    (apart : c ≠ mark) : ∃ segment ∈ text.splitOn mark, c ∈ segment := by
  induction text with
  | nil => cases member
  | cons head rest ih =>
      rw [List.splitOn_cons_eq_if_modifyHead]
      cases inner : rest.splitOn mark with
      | nil => exact absurd inner (List.splitOn_ne_nil mark rest)
      | cons first others =>
          rw [inner] at ih
          rcases List.mem_cons.1 member with rfl | later
          · rw [if_neg (mt beq_iff_eq.1 apart)]
            exact ⟨_, List.mem_cons_self .., List.mem_cons_self ..⟩
          · obtain ⟨segment, split, inside⟩ := ih later
            split
            · exact ⟨segment, List.mem_cons_of_mem _ split, inside⟩
            · rcases List.mem_cons.1 split with rfl | elsewhere
              · exact ⟨_, List.mem_cons_self .., List.mem_cons_of_mem _ inside⟩
              · exact ⟨segment, List.mem_cons_of_mem _ elsewhere, inside⟩

end Path

namespace Placeholder

instance (p : Placeholder) : Decidable p.WellFormed :=
  match p with
  | scalar path => inferInstanceAs (Decidable (path ≠ [] ∧ path.all isPathChar))
  | collection path property =>
      inferInstanceAs (Decidable (isPath path ∧ ∀ p ∈ property, isPath p))

theorem isPathChar_of_isPath {path : List Char} (good : isPath path = true) :
    ∀ c ∈ path, isPathChar c = true := by
  intro c member
  by_cases colon : c = ':'
  · rw [colon]
    decide
  · obtain ⟨segment, split, inside⟩ := Path.exists_segment member colon
    have both := List.all_eq_true.1 good segment split
    rw [Bool.and_eq_true, List.all_eq_true] at both
    rw [isPathChar, both.2 c inside, Bool.true_or]

theorem takeWhile_path {path rest : List Char} {stop : Char}
    (good : ∀ c ∈ path, isPathChar c = true) (ends : isPathChar stop = false) :
    (path ++ stop :: rest).takeWhile isPathChar = path := by
  rw [List.takeWhile_append_of_pos good, List.takeWhile_cons_of_neg (by rw [ends]; decide),
    List.append_nil]

theorem dropWhile_path {path rest : List Char} {stop : Char}
    (good : ∀ c ∈ path, isPathChar c = true) (ends : isPathChar stop = false) :
    (path ++ stop :: rest).dropWhile isPathChar = stop :: rest := by
  rw [List.dropWhile_append_of_pos good, List.dropWhile_cons_of_neg (by rw [ends]; decide)]

/-- A well formed placeholder at the start of a text is found there. -/
theorem leading?_text_append {p : Placeholder} (good : p.WellFormed) (rest : List Char) :
    leading? p.kind (p.text ++ rest) = some (p, rest) := by
  cases p with
  | scalar path =>
      obtain ⟨nonempty, chars⟩ := good
      have all := List.all_eq_true.1 chars
      have ends : isPathChar '}' = false := by decide
      have filled : path.isEmpty = false := by
        rw [List.isEmpty_eq_false_iff]
        exact nonempty
      have shape : (scalar path).text ++ rest = '{' :: (path ++ '}' :: rest) := by simp [text]
      rw [shape]
      simp only [kind, leading?, leadingScalar?, takeWhile_path all ends,
        dropWhile_path all ends, filled, Bool.false_eq_true, if_false]
  | collection path property =>
      obtain ⟨isOuter, inner⟩ := good
      have outer := isPathChar_of_isPath isOuter
      have ends : isPathChar ']' = false := by decide
      have dot : isPathChar '.' = false := by decide
      cases property with
      | none =>
          have shape : (collection path none).text ++ rest = '[' :: (path ++ ']' :: rest) := by
            simp [text]
          rw [shape]
          simp only [kind, leading?, leadingCollection?, takeWhile_path outer ends,
            dropWhile_path outer ends, if_pos isOuter]
      | some name =>
          have isInner := inner name rfl
          have behind := isPathChar_of_isPath isInner
          have shape : (collection path (some name)).text ++ rest =
              '[' :: (path ++ '.' :: (name ++ ']' :: rest)) := by simp [text]
          rw [shape]
          simp only [kind, leading?, leadingCollection?, takeWhile_path outer dot,
            dropWhile_path outer dot, takeWhile_path behind ends, dropWhile_path behind ends,
            isOuter, isInner, Bool.and_self, if_true]

theorem wellFormed_of_leadingScalar? {text rest : List Char} {p : Placeholder}
    (found : leadingScalar? text = some (p, rest)) : p.kind = .scalar ∧ p.WellFormed := by
  unfold leadingScalar? at found
  split at found
  · dsimp only at found
    split at found
    · split at found
      · cases found
      · rename_i filled
        simp only [Option.some.injEq, Prod.mk.injEq] at found
        obtain ⟨rfl, -⟩ := found
        refine ⟨rfl, ?_, List.all_takeWhile⟩
        intro empty
        apply filled
        rw [empty]
        rfl
    · cases found
  · cases found

theorem wellFormed_of_leadingCollection? {text rest : List Char} {p : Placeholder}
    (found : leadingCollection? text = some (p, rest)) : p.kind = .collection ∧ p.WellFormed := by
  unfold leadingCollection? at found
  split at found
  · dsimp only at found
    split at found
    · split at found
      · rename_i isOuter
        simp only [Option.some.injEq, Prod.mk.injEq] at found
        obtain ⟨rfl, -⟩ := found
        exact ⟨rfl, isOuter, fun _ absent => by cases absent⟩
      · cases found
    · split at found
      · split at found
        · rename_i both
          simp only [Option.some.injEq, Prod.mk.injEq] at found
          obtain ⟨rfl, -⟩ := found
          rw [Bool.and_eq_true] at both
          refine ⟨rfl, both.1, ?_⟩
          intro name present
          cases present
          exact both.2
        · cases found
      · cases found
    · cases found
  · cases found

/-- What is found at the start of a text is of the wanted kind and fits the grammar. -/
theorem wellFormed_of_leading? {kind : PlaceholderKind} {text rest : List Char}
    {p : Placeholder} (found : leading? kind text = some (p, rest)) :
    p.kind = kind ∧ p.WellFormed := by
  cases kind with
  | scalar => exact wellFormed_of_leadingScalar? found
  | collection => exact wellFormed_of_leadingCollection? found

end Placeholder

open Placeholder

theorem pieces_text_append {p : Placeholder} (good : p.WellFormed) (rest : List Char) :
    pieces p.kind (p.text ++ rest) = .placeholder p :: pieces p.kind rest := by
  have found := leading?_text_append good rest
  cases shape : p.text ++ rest with
  | nil => exact absurd (List.append_eq_nil_iff.1 shape).1 p.text_ne_nil
  | cons c behind =>
      rw [shape] at found
      rw [pieces]
      split
      · rename_i found'
        cases found.symm.trans found'
        rfl
      · rename_i absent
        cases found.symm.trans absent

/-- The text of a well formed placeholder is one piece. -/
theorem pieces_text {p : Placeholder} (good : p.WellFormed) :
    pieces p.kind p.text = [.placeholder p] := by
  have whole := pieces_text_append good []
  rwa [List.append_nil, pieces] at whole

theorem wellFormed_of_mem_pieces {kind : PlaceholderKind} {text : List Char} {p : Placeholder}
    (member : .placeholder p ∈ pieces kind text) : p.kind = kind ∧ p.WellFormed := by
  fun_induction pieces kind text with
  | case1 => cases member
  | case2 c rest q remaining found _ ih =>
      rcases List.mem_cons.1 member with same | later
      · cases same
        exact wellFormed_of_leading? found
      · exact ih later
  | case3 c rest _ ih =>
      rcases List.mem_cons.1 member with same | later
      · cases same
      · exact ih later

/-- An occurrence starts behind the pieces that are before its own. -/
theorem Occurrence.mem_among_iff {offset : Nat} {found : List Piece} {o : Occurrence} :
    o ∈ Occurrence.among offset found ↔
      ∃ before rest, found = before ++ .placeholder o.placeholder :: rest ∧
        o.start = offset + Text.bytes (before.flatMap Piece.text) := by
  induction found generalizing offset with
  | nil => simp [Occurrence.among]
  | cons piece rest ih =>
      have shifted (before : List Piece) :
          offset + Text.bytes ((piece :: before).flatMap Piece.text) =
            offset + Text.bytes piece.text + Text.bytes (before.flatMap Piece.text) := by
        rw [List.flatMap_cons, Text.bytes_append, Nat.add_assoc]
      have later : (∃ before after, piece :: rest =
            piece :: before ++ .placeholder o.placeholder :: after ∧
            o.start = offset + Text.bytes ((piece :: before).flatMap Piece.text)) ↔
          o ∈ Occurrence.among (offset + Text.bytes piece.text) rest := by
        rw [ih]
        simp only [shifted, List.cons_append, List.cons.injEq, true_and]
      constructor
      · intro member
        cases piece with
        | plain c =>
            obtain ⟨before, after, split⟩ := later.2 member
            exact ⟨_, after, split⟩
        | placeholder p =>
            rcases List.mem_cons.1 member with rfl | behind
            · exact ⟨[], rest, rfl, rfl⟩
            · obtain ⟨before, after, split⟩ := later.2 behind
              exact ⟨_, after, split⟩
      · rintro ⟨before, after, split, start⟩
        cases before with
        | nil =>
            obtain ⟨rfl, rfl⟩ := List.cons.inj split
            obtain ⟨_, _⟩ := o
            cases start
            exact List.mem_cons_self ..
        | cons head more =>
            obtain ⟨rfl, others⟩ := List.cons.inj split
            have behind := later.1 ⟨more, after, split, start⟩
            cases piece with
            | plain c => exact behind
            | placeholder p => exact List.mem_cons_of_mem _ behind

theorem wellFormed_of_mem_occurrences {kind : PlaceholderKind} {text : String} {o : Occurrence}
    (member : o ∈ occurrences kind text) :
    o.placeholder.kind = kind ∧ o.placeholder.WellFormed := by
  obtain ⟨before, rest, split, -⟩ := Occurrence.mem_among_iff.1 member
  have inside : .placeholder o.placeholder ∈ pieces kind text.toList := by
    rw [split]
    exact List.mem_append_right _ (List.mem_cons_self ..)
  exact wellFormed_of_mem_pieces inside

theorem exists_occurrence {kind : PlaceholderKind} {text : String} {p : Placeholder}
    (member : .placeholder p ∈ pieces kind text.toList) :
    ∃ o ∈ occurrences kind text, o.placeholder = p := by
  obtain ⟨before, rest, split⟩ := List.append_of_mem member
  exact ⟨⟨_, p⟩, Occurrence.mem_among_iff.2 ⟨before, rest, split, rfl⟩, rfl⟩

/-! ### Texts that are one placeholder -/

theorem occurrences_text {p : Placeholder} (good : p.WellFormed) :
    occurrences p.kind (String.ofList p.text) = [⟨0, p⟩] := by
  rw [occurrences, String.toList_ofList, pieces_text good]
  rfl

theorem isSinglePlaceholder_text {p : Placeholder} (good : p.WellFormed) :
    (classify p.kind (String.ofList p.text)).isSinglePlaceholder = true := by
  simp [classify, occurrences_text good, Classification.isSinglePlaceholder]

theorem scalarPath?_text {path : List Char} (good : (scalar path).WellFormed) :
    scalarPath? (String.ofList (scalar path).text) = some (String.ofList path) := by
  have single : pieces .scalar (scalar path).text = [.placeholder (scalar path)] :=
    pieces_text good
  rw [scalarPath?, String.toList_ofList, single]
  rfl

theorem firstCollection?_text {path : List Char} {property : Option (List Char)}
    (good : (collection path property).WellFormed) :
    firstCollection? (String.ofList (collection path property).text) =
      some ⟨String.ofList path, property.map String.ofList, 0,
        Text.bytes (collection path property).text⟩ := by
  have single : occurrences .collection (String.ofList (collection path property).text) =
      [⟨0, collection path property⟩] := occurrences_text good
  rw [firstCollection?, single]
  simp [CollectionUse.ofOccurrence?, Occurrence.stop]

/-! ### Texts with and without collections -/

theorem hasPlaceholder_eq_any (kind : PlaceholderKind) (text : String) :
    hasPlaceholder kind text = !(occurrences kind text).isEmpty := by
  rw [hasPlaceholder, occurrences]
  generalize pieces kind text.toList = found
  generalize 0 = offset
  induction found generalizing offset with
  | nil => rfl
  | cons piece rest ih =>
      cases piece with
      | plain c => exact ih _
      | placeholder p => rfl

/-- A text has a collection placeholder if the first one is found. -/
theorem hasPlaceholder_collection (text : String) :
    hasPlaceholder .collection text = (firstCollection? text).isSome := by
  rw [hasPlaceholder_eq_any, firstCollection?]
  cases found : occurrences .collection text with
  | nil => rfl
  | cons o rest =>
      have member : o ∈ occurrences .collection text := found ▸ List.mem_cons_self ..
      have kind := (wellFormed_of_mem_occurrences member).1
      cases placeholder : o.placeholder with
      | scalar path =>
          rw [placeholder] at kind
          cases kind
      | collection path property => simp [CollectionUse.ofOccurrence?, placeholder]

theorem mem_of_mem_pieces {kind : PlaceholderKind} {text : List Char} {piece : Piece} {c : Char}
    (member : piece ∈ pieces kind text) (inside : c ∈ piece.text) : c ∈ text := by
  rw [← flatMap_text_pieces kind text]
  exact List.mem_flatMap.2 ⟨piece, member, inside⟩

/-- The character that placeholders of a kind begin with. -/
def PlaceholderKind.mark : PlaceholderKind → Char
  | scalar => '{'
  | collection => '['

theorem Placeholder.mark_mem_text (p : Placeholder) : p.kind.mark ∈ p.text := by
  cases p with
  | scalar path => simp [text, kind, PlaceholderKind.mark]
  | collection path property => cases property <;> simp [text, kind, PlaceholderKind.mark]

/-- Without the mark that they begin with there are no placeholders. -/
theorem hasPlaceholder_of_not_mem {kind : PlaceholderKind} {text : String}
    (absent : kind.mark ∉ text.toList) : hasPlaceholder kind text = false := by
  rw [hasPlaceholder, List.any_eq_false]
  intro piece member
  cases piece with
  | plain c => exact Bool.false_ne_true
  | placeholder p =>
      obtain ⟨rfl, -⟩ := wellFormed_of_mem_pieces member
      exact absurd (mem_of_mem_pieces member p.mark_mem_text) absent

/-! ### The first collection -/

/-- Pieces without a placeholder at the start of a text are the pieces of what they stand for. -/
theorem pieces_of_plain {kind : PlaceholderKind} {text : List Char} {front rest : List Piece}
    (split : pieces kind text = front ++ rest)
    (plain : ∀ piece ∈ front, piece.placeholder? = none) :
    pieces kind (front.flatMap Piece.text) = front := by
  induction front generalizing text with
  | nil => rw [List.flatMap_nil, pieces]
  | cons piece more ih =>
      cases text with
      | nil =>
          rw [pieces] at split
          cases split
      | cons c behind =>
          rw [pieces, List.cons_append] at split
          split at split
          · obtain ⟨rfl, -⟩ := List.cons.inj split
            cases plain _ (List.mem_cons_self ..)
          · rename_i absent
            obtain ⟨rfl, later⟩ := List.cons.inj split
            have ends := ih later fun piece member => plain piece (List.mem_cons_of_mem _ member)
            change pieces kind (c :: more.flatMap Piece.text) = _
            rw [pieces]
            split
            · -- a placeholder in the front alone would be found in the whole text as well
              rename_i p remaining found
              obtain ⟨rfl, good⟩ := wellFormed_of_leading? found
              have whole := flatMap_text_pieces p.kind behind
              rw [later, List.flatMap_append] at whole
              have extended := leading?_text_append good (remaining ++ rest.flatMap Piece.text)
              rw [← List.append_assoc, text_append_of_leading? found, List.cons_append, whole,
                absent] at extended
              cases extended
            · rw [ends]

private theorem exists_split_among {found : List Piece} {offset : Nat} {use : CollectionUse}
    (collections : ∀ p, .placeholder p ∈ found → p.kind = .collection)
    (first : (Occurrence.among offset found).findSome? CollectionUse.ofOccurrence? = some use) :
    ∃ front path property rest, found = front ++ .placeholder (.collection path property) :: rest ∧
      (∀ piece ∈ front, piece.placeholder? = none) ∧
      use.collection = String.ofList path ∧ use.property = property.map String.ofList ∧
      use.start = offset + Text.bytes (front.flatMap Piece.text) := by
  induction found generalizing offset with
  | nil => cases first
  | cons piece rest ih =>
      cases piece with
      | plain c =>
          obtain ⟨front, path, property, behind, split, plain, outer, inner, start⟩ :=
            ih (fun p member => collections p (List.mem_cons_of_mem _ member)) first
          refine ⟨.plain c :: front, path, property, behind, congrArg (_ :: ·) split,
            List.forall_mem_cons.2 ⟨rfl, plain⟩, outer, inner, ?_⟩
          rw [start, List.flatMap_cons, Text.bytes_append, Nat.add_assoc]
          rfl
      | placeholder p =>
          cases p with
          | scalar path => cases collections _ (List.mem_cons_self ..)
          | collection path property =>
              cases first
              exact ⟨[], path, property, rest, rfl, List.forall_mem_nil _, rfl, rfl, rfl⟩

/-- The first collection of a text is the first of its pieces that is a placeholder. -/
theorem exists_split_of_firstCollection? {text : String} {use : CollectionUse}
    (first : firstCollection? text = some use) :
    ∃ front path property rest,
      pieces .collection text.toList = front ++ .placeholder (.collection path property) :: rest ∧
      (∀ piece ∈ front, piece.placeholder? = none) ∧
      use.collection = String.ofList path ∧ use.property = property.map String.ofList ∧
      use.start = Text.bytes (front.flatMap Piece.text) := by
  have split := exists_split_among (fun p member => (wellFormed_of_mem_pieces member).1) first
  simpa only [Nat.zero_add] using split

end Stencil
