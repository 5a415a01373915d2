import Stencil.Proofs.Placeholder.Places

/-! What the numbers of a classification say about a text. The placeholders are as long as the text
together exactly if the text is put together from them, and it is put together from words of one
pattern in one way at most: the scan reads every such word back. -/

namespace Stencil

open Placeholder

variable {kind : PlaceholderKind} {text : String}

/-- Texts of placeholders one behind the other are read back as these placeholders. -/
theorem pieces_flatMap_text {found : List Placeholder}
    (good : ∀ p ∈ found, p.kind = kind ∧ p.WellFormed) :
    pieces kind (found.flatMap Placeholder.text) = found.map .placeholder := by
  induction found with
  | nil => rw [List.flatMap_nil, pieces, List.map_nil]
  | cons p rest ih =>
      obtain ⟨⟨rfl, wellFormed⟩, others⟩ := List.forall_mem_cons.1 good
      rw [List.flatMap_cons, pieces_text_append wellFormed, ih others, List.map_cons]

namespace PlaceholderKind

/-- A text is put together from one or more words of a pattern. -/
structure Decomposes (kind : PlaceholderKind) (text : String) (words : List (List Char)) :
    Prop where
  nonempty : words ≠ []
  inside : ∀ word ∈ words, word ∈ kind.words
  whole : words.flatten = text.toList

/-- The words that a text is put together from are its placeholders. -/
theorem Decomposes.eq_map {words : List (List Char)} (parts : kind.Decomposes text words) :
    words = (placeholdersOf kind text).map Placeholder.text := by
  have written : ∃ found : List Placeholder, (∀ p ∈ found, p.kind = kind ∧ p.WellFormed) ∧
      found.map Placeholder.text = words := by
    have inside := parts.inside
    clear parts
    induction words with
    | nil => exact ⟨[], List.forall_mem_nil _, rfl⟩
    | cons word rest ih =>
        obtain ⟨here, later⟩ := List.forall_mem_cons.1 inside
        obtain ⟨p, same, good, rfl⟩ := mem_words_iff.1 here
        obtain ⟨found, all, rfl⟩ := ih later
        exact ⟨p :: found, List.forall_mem_cons.2 ⟨⟨same, good⟩, all⟩, rfl⟩
  obtain ⟨found, good, rfl⟩ := written
  rw [placeholdersOf, ← parts.whole, ← List.flatMap_def, pieces_flatMap_text good,
    List.filterMap_map]
  change _ = (found.filterMap some).map _
  rw [List.filterMap_some]

end PlaceholderKind

open PlaceholderKind

theorem matchCount_classify (kind : PlaceholderKind) (text : String) :
    (classify kind text).matchCount = (placeholdersOf kind text).length := by
  rw [← map_placeholder_occurrences, List.length_map]
  rfl

/-- The lengths agree exactly if the text is that of its placeholders. -/
theorem patternOnly_iff :
    (classify kind text).patternOnly = true ↔
      placeholdersOf kind text ≠ [] ∧
        (placeholdersOf kind text).flatMap Placeholder.text = text.toList := by
  have joined : ((occurrences kind text).flatMap fun o => o.placeholder.text) =
      (placeholdersOf kind text).flatMap Placeholder.text := by
    rw [← map_placeholder_occurrences, List.flatMap_map]
  have found : 0 < (occurrences kind text).length ↔ placeholdersOf kind text ≠ [] := by
    rw [← map_placeholder_occurrences, Ne, List.map_eq_nil_iff, List.length_pos_iff]
  simp only [classify, Bool.and_eq_true, decide_eq_true_eq, beq_iff_eq, found]
  refine and_congr_right fun _ => ⟨fun covered => ?_, fun whole => by rw [joined, whole]⟩
  rw [← joined, ← flatMap_text_pieces kind text.toList]
  exact flatMap_text_among (covered.trans (congrArg _ (flatMap_text_pieces kind text.toList).symm))

theorem patternOnly_iff_decomposes :
    (classify kind text).patternOnly = true ↔ ∃ words, kind.Decomposes text words := by
  rw [patternOnly_iff]
  constructor
  · rintro ⟨nonempty, whole⟩
    refine ⟨(placeholdersOf kind text).map Placeholder.text, ?_, ?_, ?_⟩
    · exact mt List.map_eq_nil_iff.1 nonempty
    · intro word member
      obtain ⟨p, inside, rfl⟩ := List.mem_map.1 member
      obtain ⟨same, good⟩ := wellFormed_of_mem_placeholdersOf inside
      exact mem_words_iff.2 ⟨p, same, good, rfl⟩
    · rw [← List.flatMap_def, whole]
  · rintro ⟨words, parts⟩
    obtain rfl := parts.eq_map
    refine ⟨fun nothing => parts.nonempty (by rw [nothing, List.map_nil]), ?_⟩
    rw [List.flatMap_def, parts.whole]

theorem isSinglePlaceholder_iff :
    (classify kind text).isSinglePlaceholder = true ↔ text.toList ∈ kind.words := by
  rw [mem_words_iff]
  constructor
  · intro single
    obtain ⟨p, same, good, rfl⟩ := exists_of_isSinglePlaceholder single
    exact ⟨p, same, good, (String.toList_ofList).symm⟩
  · rintro ⟨p, rfl, good, whole⟩
    have single := isSinglePlaceholder_text good
    rwa [whole, String.ofList_toList] at single

theorem isMatch_iff :
    (classify kind text).isMatch = true ↔ ∃ word ∈ kind.words, word <:+: text.toList := by
  rw [isMatch_classify, hasPlaceholder_iff]
  constructor
  · rintro ⟨start, stop, word, inside, held⟩
    obtain ⟨front, back, shape, -⟩ := Text.slice?_eq_some_iff.1 held
    exact ⟨word, inside, front, back, shape.symm⟩
  · rintro ⟨word, inside, front, back, shape⟩
    exact ⟨_, _, word, inside, Text.slice?_eq_some_iff.2 ⟨front, back, shape.symm, rfl, rfl⟩⟩

/-- The classification of a text by lengths decides the grammar. A text is only pattern exactly if
it is put together from words of the pattern; there is one way to do that, with as many words as
there are matches. It is a single placeholder exactly if it is a word, which is then read as a
whole. It is a match exactly if a part of it is a word. -/
theorem classify_decides (kind : PlaceholderKind) (text : String) :
    ((classify kind text).patternOnly = true ↔ ∃ words, kind.Decomposes text words) ∧
    (∀ words, kind.Decomposes text words → words.length = (classify kind text).matchCount ∧
      ∀ other, kind.Decomposes text other → other = words) ∧
    ((classify kind text).isSinglePlaceholder = true ↔ text.toList ∈ kind.words) ∧
    ((classify .scalar text).isSinglePlaceholder = true →
      ∃ path, scalarPath? text = some path ∧ text.toList = '{' :: path.toList ++ ['}']) ∧
    ((classify .collection text).isSinglePlaceholder = true →
      ∃ use, firstCollection? text = some use ∧ use.start = 0 ∧
        use.stop = Text.bytes text.toList) ∧
    ((classify kind text).isMatch = true ↔ ∃ word ∈ kind.words, word <:+: text.toList) := by
  refine ⟨patternOnly_iff_decomposes, ?_, isSinglePlaceholder_iff, ?_, ?_, isMatch_iff⟩
  · intro words parts
    refine ⟨?_, fun other parts' => parts'.eq_map.trans parts.eq_map.symm⟩
    rw [matchCount_classify, parts.eq_map, List.length_map]
  · intro single
    obtain ⟨p, same, good, rfl⟩ := exists_of_isSinglePlaceholder single
    cases p with
    | collection path property => cases same
    | scalar path =>
        refine ⟨_, scalarPath?_text good, ?_⟩
        rw [String.toList_ofList, String.toList_ofList]
        rfl
  · intro single
    obtain ⟨p, same, good, rfl⟩ := exists_of_isSinglePlaceholder single
    cases p with
    | scalar path => cases same
    | collection path property =>
        refine ⟨_, firstCollection?_text good, rfl, ?_⟩
        rw [String.toList_ofList]

/-- Two names right behind each other. -/
def initials : String := "{First}{Last}"

/-- The initials are put together from two words. With a letter behind them, which takes two bytes,
they are not. One name alone is read as a whole, and so is one collection. -/
theorem initials_decided :
    (PlaceholderKind.scalar.Decomposes initials ["{First}".toList, "{Last}".toList] ∧
      (classify .scalar initials).matchCount = 2) ∧
    ((classify .scalar "{First}{Last}é").matchCount = 2 ∧
      ¬∃ words, PlaceholderKind.scalar.Decomposes "{First}{Last}é" words) ∧
    ((classify .scalar "{First}").isSinglePlaceholder = true ∧
      ∃ path, scalarPath? "{First}" = some path ∧ "{First}".toList = '{' :: path.toList ++ ['}']) ∧
    (classify .collection "[Name.First]").isSinglePlaceholder = true ∧
      ∃ use, firstCollection? "[Name.First]" = some use ∧ use.start = 0 ∧
        use.stop = Text.bytes "[Name.First]".toList := by
  have word (path : List Char) (good : (Placeholder.scalar path).WellFormed) :
      '{' :: path ++ ['}'] ∈ PlaceholderKind.scalar.words := mem_words_iff.2 ⟨_, rfl, good, rfl⟩
  have parts : PlaceholderKind.scalar.Decomposes initials ["{First}".toList, "{Last}".toList] :=
    ⟨by decide, List.forall_mem_cons.2 ⟨word "First".toList (by decide),
      List.forall_mem_singleton.2 (word "Last".toList (by decide))⟩, by decide⟩
  have count := ((classify_decides .scalar initials).2.1 _ parts).1
  have longer : (classify .scalar "{First}{Last}é").patternOnly = false := by cbv
  have single : (classify .scalar "{First}").isSinglePlaceholder = true := by cbv
  have whole : (classify .collection "[Name.First]").isSinglePlaceholder = true := by cbv
  refine ⟨⟨parts, count.symm⟩, ⟨by cbv, fun parts => ?_⟩, ⟨single, ?_⟩, whole, ?_⟩
  · rw [(classify_decides .scalar "{First}{Last}é").1.2 parts] at longer
    cases longer
  · exact (classify_decides .scalar "{First}").2.2.2.1 single
  · exact (classify_decides .collection "[Name.First]").2.2.2.2.1 whole

end Stencil
