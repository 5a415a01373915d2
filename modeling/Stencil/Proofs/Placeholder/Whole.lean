import Stencil.Proofs.Placeholder.Scan

/-! Texts that are one placeholder and nothing else, and texts without the marks that placeholders
are made of. A survey of either kind of text is known in advance. -/

namespace Stencil

open Placeholder

theorem map_placeholder_among (offset : Nat) (found : List Piece) :
    (Occurrence.among offset found).map Occurrence.placeholder =
      found.filterMap Piece.placeholder? := by
  induction found generalizing offset with
  | nil => rfl
  | cons piece rest ih =>
      cases piece with
      | plain c => exact ih _
      | placeholder p => exact congrArg (p :: ·) (ih _)

/-- The placeholders of a text, in order. -/
def placeholdersOf (kind : PlaceholderKind) (text : String) : List Placeholder :=
  (pieces kind text.toList).filterMap Piece.placeholder?

theorem map_placeholder_occurrences (kind : PlaceholderKind) (text : String) :
    (occurrences kind text).map Occurrence.placeholder = placeholdersOf kind text :=
  map_placeholder_among 0 _

theorem wellFormed_of_mem_placeholdersOf {kind : PlaceholderKind} {text : String} {p : Placeholder}
    (member : p ∈ placeholdersOf kind text) : p.kind = kind ∧ p.WellFormed := by
  rw [← map_placeholder_occurrences] at member
  obtain ⟨o, found, rfl⟩ := List.mem_map.1 member
  exact wellFormed_of_mem_occurrences found

theorem placeholdersOf_eq_nil_iff {kind : PlaceholderKind} {text : String} :
    placeholdersOf kind text = [] ↔ hasPlaceholder kind text = false := by
  rw [← map_placeholder_occurrences, List.map_eq_nil_iff, hasPlaceholder_eq_any,
    Bool.not_eq_false', List.isEmpty_iff]

theorem placeholdersOf_text {p : Placeholder} (good : p.WellFormed) :
    placeholdersOf p.kind (String.ofList p.text) = [p] := by
  rw [← map_placeholder_occurrences, occurrences_text good]
  rfl

/-- A placeholder is known by its kind and its text. -/
theorem Placeholder.eq_of_text {p q : Placeholder} (good : p.WellFormed) (good' : q.WellFormed)
    (kind : p.kind = q.kind) (same : p.text = q.text) : p = q := by
  have only := placeholdersOf_text good
  rw [kind, same, placeholdersOf_text good'] at only
  exact (List.cons.inj only).1.symm

/-! ### Judging by numbers -/

theorem isMatch_classify (kind : PlaceholderKind) (text : String) :
    (classify kind text).isMatch = hasPlaceholder kind text := by
  rw [hasPlaceholder_eq_any]
  cases found : occurrences kind text <;> simp [classify, found]

theorem covered_le (offset : Nat) (found : List Piece) :
    Text.bytes ((Occurrence.among offset found).flatMap fun o => o.placeholder.text) ≤
      Text.bytes (found.flatMap Piece.text) := by
  induction found generalizing offset with
  | nil => exact Nat.le_refl _
  | cons piece rest ih =>
      have others := ih (offset + Text.bytes piece.text)
      cases piece with
      | plain c =>
          rw [List.flatMap_cons, Text.bytes_append]
          exact Nat.le_add_left_of_le (ih _)
      | placeholder p =>
          rw [Occurrence.among, List.flatMap_cons, List.flatMap_cons, Text.bytes_append,
            Text.bytes_append]
          exact Nat.add_le_add_left others _

/-- If the placeholders are as long as the text, then there is nothing between them. -/
theorem flatMap_text_among {offset : Nat} {found : List Piece}
    (covered : Text.bytes ((Occurrence.among offset found).flatMap fun o => o.placeholder.text) =
      Text.bytes (found.flatMap Piece.text)) :
    ((Occurrence.among offset found).flatMap fun o => o.placeholder.text) =
      found.flatMap Piece.text := by
  induction found generalizing offset with
  | nil => rfl
  | cons piece rest ih =>
      cases piece with
      | plain c =>
          exfalso
          have short := covered_le (offset + c.utf8Size) rest
          have positive := Char.utf8Size_pos c
          rw [Occurrence.among, List.flatMap_cons, Text.bytes_append] at covered
          simp only [Piece.text, Text.bytes] at covered
          omega
      | placeholder p =>
          rw [Occurrence.among, List.flatMap_cons, List.flatMap_cons, Text.bytes_append,
            Text.bytes_append] at covered
          rw [Occurrence.among, List.flatMap_cons, List.flatMap_cons,
            ih (Nat.add_left_cancel covered)]
          rfl

/-- A text that counts as a single placeholder is one. -/
theorem exists_of_isSinglePlaceholder {kind : PlaceholderKind} {text : String}
    (single : (classify kind text).isSinglePlaceholder = true) :
    ∃ p : Placeholder, p.kind = kind ∧ p.WellFormed ∧ text = String.ofList p.text := by
  simp only [classify, Classification.isSinglePlaceholder, Bool.and_eq_true, beq_iff_eq] at single
  obtain ⟨⟨-, covered⟩, count⟩ := single
  obtain ⟨o, only⟩ := List.length_eq_one_iff.1 count
  have member : o ∈ occurrences kind text := by
    rw [only]
    exact List.mem_singleton_self o
  obtain ⟨same, good⟩ := wellFormed_of_mem_occurrences member
  have whole : ((occurrences kind text).flatMap fun o => o.placeholder.text) =
      (pieces kind text.toList).flatMap Piece.text :=
    flatMap_text_among (covered.trans (congrArg _ (flatMap_text_pieces kind text.toList).symm))
  rw [flatMap_text_pieces, only, List.flatMap_singleton] at whole
  exact ⟨o.placeholder, same, good, by rw [whole, String.ofList_toList]⟩

theorem Piece.ofList_flatMap_eq_empty_iff (found : List Piece) :
    String.ofList (found.flatMap Piece.text) = "" ↔ found = [] := by
  cases found with
  | nil => exact iff_of_true rfl rfl
  | cons piece rest =>
      refine iff_of_false (fun empty => ?_) (List.cons_ne_nil _ _)
      rw [String.ofList_eq_empty_iff, List.flatMap_cons, List.append_eq_nil_iff] at empty
      cases piece with
      | plain c => cases empty.1
      | placeholder p => exact p.text_ne_nil empty.1

theorem isSinglePlaceholder_iff_of_split {kind : PlaceholderKind} {text : String}
    {front rest : List Piece} {p : Placeholder}
    (split : pieces kind text.toList = front ++ .placeholder p :: rest) :
    (classify kind text).isSinglePlaceholder = true ↔ front = [] ∧ rest = [] := by
  constructor
  · intro single
    obtain ⟨q, rfl, good, rfl⟩ := exists_of_isSinglePlaceholder single
    have lengths := congrArg List.length split
    rw [String.toList_ofList, pieces_text good, List.length_singleton, List.length_append,
      List.length_cons] at lengths
    exact ⟨List.eq_nil_of_length_eq_zero (by omega), List.eq_nil_of_length_eq_zero (by omega)⟩
  · rintro ⟨rfl, rfl⟩
    have member : .placeholder p ∈ pieces kind text.toList := split ▸ List.mem_singleton_self _
    obtain ⟨rfl, good⟩ := wellFormed_of_mem_pieces member
    have whole := flatMap_text_pieces p.kind text.toList
    rw [split, List.nil_append, List.flatMap_singleton] at whole
    have single := isSinglePlaceholder_text good
    rwa [← Piece.text, whole, String.ofList_toList] at single

/-! ### Marks -/

/-- The characters that placeholders begin and end with. -/
def isMark (c : Char) : Bool := c == '[' || c == ']' || c == '{' || c == '}'

/-- A text without any of the marks. -/
def Unmarked (text : String) : Prop := ∀ c ∈ text.toList, isMark c = false

/-- Whether a text has none of the marks. -/
def lacksMarks (text : String) : Bool := text.toList.all fun c => !isMark c

theorem lacksMarks_iff {text : String} : lacksMarks text = true ↔ Unmarked text := by
  simp only [lacksMarks, List.all_eq_true, Bool.not_eq_true', Unmarked]

/-- A text that is one placeholder. -/
def IsPlaceholder (text : String) : Prop :=
  ∃ p : Placeholder, p.WellFormed ∧ text = String.ofList p.text

/-- A path has no mark in it. -/
theorem Placeholder.mark_not_mem {path : List Char} (chars : ∀ c ∈ path, isPathChar c = true)
    (kind : PlaceholderKind) : kind.mark ∉ path := by
  intro inside
  have apart : isPathChar kind.mark = false := by cases kind <;> decide
  rw [chars _ inside] at apart
  cases apart

/-- A placeholder has no mark of the other kind in it. -/
theorem Placeholder.not_mem_text {p : Placeholder} (good : p.WellFormed) {kind : PlaceholderKind}
    (other : kind ≠ p.kind) : kind.mark ∉ p.text := by
  cases p with
  | scalar path =>
      cases kind with
      | scalar => exact absurd rfl other
      | collection =>
          have inPath := mark_not_mem (List.all_eq_true.1 good.2) .collection
          simpa [text, PlaceholderKind.mark] using inPath
  | collection path property =>
      cases kind with
      | collection => exact absurd rfl other
      | scalar =>
          have inPath := mark_not_mem (isPathChar_of_isPath good.1) .scalar
          cases property with
          | none => simpa [text, PlaceholderKind.mark] using inPath
          | some name =>
              have inName := mark_not_mem (isPathChar_of_isPath (good.2 name rfl)) .scalar
              simpa [text, PlaceholderKind.mark] using ⟨inPath, inName⟩

theorem Unmarked.hasPlaceholder {text : String} (unmarked : Unmarked text)
    (kind : PlaceholderKind) : hasPlaceholder kind text = false := by
  apply hasPlaceholder_of_not_mem
  intro inside
  have plain := unmarked _ inside
  cases kind <;> exact absurd plain (by decide)

theorem hasPlaceholder_text {p : Placeholder} (good : p.WellFormed) (kind : PlaceholderKind) :
    hasPlaceholder kind (String.ofList p.text) = (kind == p.kind) := by
  by_cases same : kind = p.kind
  · subst same
    rw [hasPlaceholder_eq_any, occurrences_text good]
    simp
  · rw [beq_eq_false_iff_ne.2 same]
    apply hasPlaceholder_of_not_mem
    rw [String.toList_ofList]
    exact not_mem_text good same

theorem sourceText_of_text {path : List Char} {property : Option (List Char)}
    (start stop : Nat) :
    CollectionUse.sourceText ⟨String.ofList path, property.map String.ofList, start, stop⟩ =
      String.ofList (collection path property).text := by
  apply String.toList_inj.1
  cases property <;> simp [CollectionUse.sourceText, text]

end Stencil
