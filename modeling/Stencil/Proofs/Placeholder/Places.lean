import Stencil.Proofs.Placeholder.Words

/-! The places in a text at which a word of a pattern stands are those that the scan from the left
finds. A word begins with a mark that is nowhere else in it, so words never overlap, and no place at
which one begins is passed. -/

namespace Stencil

/-- The characters between two byte offsets, none where one of these lies inside a character or
behind the end, or the second before the first. -/
def Text.slice? (start stop : Nat) (text : List Char) : Option (List Char) :=
  (cut? stop text).bind fun (upTo, _) => (cut? start upTo).map Prod.snd

theorem Text.slice?_eq_some_iff {start stop : Nat} {text word : List Char} :
    slice? start stop text = some word ↔
      ∃ front back, text = front ++ word ++ back ∧ bytes front = start ∧
        bytes (front ++ word) = stop := by
  constructor
  · intro found
    obtain ⟨⟨upTo, back⟩, outer, inner⟩ := Option.bind_eq_some_iff.1 found
    obtain ⟨⟨front, word'⟩, cut, same⟩ := Option.map_eq_some_iff.1 inner
    obtain rfl : word' = word := same
    obtain ⟨rfl, stops⟩ := append_of_cut? outer
    obtain ⟨rfl, starts⟩ := append_of_cut? cut
    exact ⟨front, back, rfl, starts, stops⟩
  · rintro ⟨front, back, rfl, rfl, rfl⟩
    rw [slice?, cut?_bytes, Option.bind_some]
    dsimp only
    rw [cut?_bytes, Option.map_some]

/-- A word of the pattern of a kind stands between two byte offsets of a text. -/
def PlaceholderKind.WordAt (kind : PlaceholderKind) (text : String) (start stop : Nat) : Prop :=
  ∃ word ∈ kind.words, Text.slice? start stop text.toList = some word

/-! ### The scan -/

namespace Placeholder

/-- The mark that a placeholder begins with is nowhere else in it. -/
theorem exists_text_eq_cons {p : Placeholder} (good : p.WellFormed) :
    ∃ rest, p.text = p.kind.mark :: rest ∧ p.kind.mark ∉ rest := by
  cases p with
  | scalar path =>
      have inPath := mark_not_mem (List.all_eq_true.1 good.2) .scalar
      exact ⟨path ++ ['}'], rfl, by simpa [kind, PlaceholderKind.mark] using inPath⟩
  | collection path property =>
      have inPath := mark_not_mem (isPathChar_of_isPath good.1) .collection
      cases property with
      | none => exact ⟨path ++ [']'], rfl, by simpa [kind, PlaceholderKind.mark] using inPath⟩
      | some name =>
          have inName := mark_not_mem (isPathChar_of_isPath (good.2 name rfl)) .collection
          refine ⟨path ++ '.' :: name ++ [']'], by simp [text, kind, PlaceholderKind.mark], ?_⟩
          simpa [kind, PlaceholderKind.mark] using ⟨inPath, inName⟩

/-- Where a text has a placeholder of a kind at its start, another one of this kind begins there as
well or behind it. -/
theorem front_of_overlap {p q : Placeholder} (good : p.WellFormed) (good' : q.WellFormed)
    (kind : q.kind = p.kind) {front back rest : List Char}
    (overlap : q.text ++ rest = front ++ (p.text ++ back)) :
    front = [] ∨ ∃ between, front = q.text ++ between ∧ rest = between ++ (p.text ++ back) := by
  obtain ⟨opening, shape, -⟩ := exists_text_eq_cons good
  obtain ⟨inner, shape', absent⟩ := exists_text_eq_cons good'
  rcases List.append_eq_append_iff.1 overlap with ⟨between, same, later⟩ | ⟨tail, same, later⟩
  · exact .inr ⟨between, same, later⟩
  · cases tail with
    | nil => exact .inr ⟨[], by rw [same, List.append_nil, List.append_nil], later.symm⟩
    | cons c more =>
        -- the mark of the later one would be inside the first
        left
        rw [shape, List.cons_append, List.cons_append] at later
        obtain ⟨rfl, -⟩ := List.cons.inj later
        cases front with
        | nil => rfl
        | cons d others =>
            rw [shape', List.cons_append] at same
            obtain ⟨-, same⟩ := List.cons.inj same
            rw [same, kind] at absent
            exact absurd (List.mem_append_right _ (List.mem_cons_self ..)) absent

end Placeholder

open Placeholder

/-- A well formed placeholder is found wherever it stands in a text. -/
theorem exists_split_of_append {p : Placeholder} (good : p.WellFormed) {text front back : List Char}
    (shape : text = front ++ (p.text ++ back)) :
    ∃ before rest, pieces p.kind text = before ++ .placeholder p :: rest ∧
      before.flatMap Piece.text = front := by
  generalize kind : p.kind = k
  fun_induction pieces k text generalizing front with
  | case1 =>
      have nothing := (List.append_eq_nil_iff.1 (List.append_eq_nil_iff.1 shape.symm).2).1
      exact absurd nothing p.text_ne_nil
  | case2 c rest q remaining found _ ih =>
      obtain ⟨kind', good'⟩ := wellFormed_of_leading? found
      have joined := text_append_of_leading? found
      rw [shape] at joined
      rcases front_of_overlap good good' (kind'.trans kind.symm) joined with
        rfl | ⟨between, rfl, behind⟩
      · have first := leading?_text_append good back
        rw [kind, ← List.nil_append (p.text ++ back), ← shape, found] at first
        cases first
        exact ⟨[], _, rfl, rfl⟩
      · obtain ⟨before, after, split, same⟩ := ih behind
        refine ⟨.placeholder q :: before, after, by rw [split]; rfl, ?_⟩
        rw [List.flatMap_cons, same]
        rfl
  | case3 c rest absent ih =>
      cases front with
      | nil =>
          have first := leading?_text_append good back
          rw [kind, ← List.nil_append (p.text ++ back), ← shape, absent] at first
          cases first
      | cons d more =>
          obtain ⟨rfl, behind⟩ := List.cons.inj shape
          obtain ⟨before, after, split, same⟩ := ih behind
          refine ⟨.plain c :: before, after, by rw [split]; rfl, ?_⟩
          rw [List.flatMap_cons, same]
          rfl

namespace Occurrence

theorem start_lt_stop (o : Occurrence) : o.start < o.stop := by
  have positive : 0 < Text.bytes o.placeholder.text := by
    obtain ⟨c, rest, shape⟩ := List.exists_cons_of_ne_nil o.placeholder.text_ne_nil
    rw [shape, Text.bytes]
    exact Nat.add_pos_left (Char.utf8Size_pos c) _
  exact Nat.lt_add_of_pos_right positive

theorem among_ascending (offset : Nat) (found : List Piece) :
    (among offset found).Pairwise fun o next => o.stop ≤ next.start := by
  induction found generalizing offset with
  | nil => exact .nil
  | cons piece rest ih =>
      cases piece with
      | plain c => exact ih _
      | placeholder p =>
          refine List.pairwise_cons.2 ⟨fun next member => ?_, ih _⟩
          obtain ⟨before, after, -, start⟩ := mem_among_iff.1 member
          rw [start]
          exact Nat.le_add_right _ _

end Occurrence

/-- The occurrences in a text are the places at which well formed placeholders stand in it. -/
theorem mem_occurrences_iff {kind : PlaceholderKind} {text : String} {o : Occurrence} :
    o ∈ occurrences kind text ↔
      o.placeholder.kind = kind ∧ o.placeholder.WellFormed ∧
        Text.slice? o.start o.stop text.toList = some o.placeholder.text := by
  rw [occurrences, Occurrence.mem_among_iff, Text.slice?_eq_some_iff]
  constructor
  · rintro ⟨before, rest, split, start⟩
    rw [Nat.zero_add] at start
    have member : .placeholder o.placeholder ∈ pieces kind text.toList := by
      rw [split]
      exact List.mem_append_right _ (List.mem_cons_self ..)
    obtain ⟨same, good⟩ := wellFormed_of_mem_pieces member
    refine ⟨same, good, before.flatMap Piece.text, rest.flatMap Piece.text, ?_, start.symm, ?_⟩
    · rw [← flatMap_text_pieces kind text.toList, split, List.flatMap_append, List.flatMap_cons,
        List.append_assoc]
      rfl
    · rw [Text.bytes_append, ← start]
      rfl
  · rintro ⟨rfl, good, front, back, shape, start, -⟩
    rw [List.append_assoc] at shape
    obtain ⟨before, rest, split, same⟩ := exists_split_of_append good shape
    exact ⟨before, rest, split, by rw [same, start, Nat.zero_add]⟩

theorem exists_occurrence_iff {kind : PlaceholderKind} {text : String} {start stop : Nat} :
    (∃ o ∈ occurrences kind text, o.start = start ∧ o.stop = stop) ↔
      kind.WordAt text start stop := by
  constructor
  · rintro ⟨o, member, rfl, rfl⟩
    obtain ⟨same, good, held⟩ := mem_occurrences_iff.1 member
    exact ⟨o.placeholder.text, mem_words_iff.2 ⟨_, same, good, rfl⟩, held⟩
  · rintro ⟨word, inside, held⟩
    obtain ⟨p, same, good, rfl⟩ := mem_words_iff.1 inside
    obtain ⟨front, back, -, rfl, stops⟩ := Text.slice?_eq_some_iff.1 held
    rw [Text.bytes_append] at stops
    subst stops
    exact ⟨⟨_, p⟩, mem_occurrences_iff.2 ⟨same, good, held⟩, rfl, rfl⟩

theorem hasPlaceholder_iff {kind : PlaceholderKind} {text : String} :
    hasPlaceholder kind text = true ↔ ∃ start stop, kind.WordAt text start stop := by
  rw [hasPlaceholder_eq_any, Bool.not_eq_true', List.isEmpty_eq_false_iff_exists_mem]
  constructor
  · rintro ⟨o, member⟩
    exact ⟨o.start, o.stop, exists_occurrence_iff.1 ⟨o, member, rfl, rfl⟩⟩
  · rintro ⟨start, stop, word⟩
    obtain ⟨o, member, -⟩ := exists_occurrence_iff.2 word
    exact ⟨o, member⟩

/-- An occurrence of a scalar has the path that stands between the braces. -/
theorem exists_path_of_mem_occurrences {text : String} {o : Occurrence}
    (member : o ∈ occurrences .scalar text) : ∃ path, o.placeholder = .scalar path ∧
      Text.slice? o.start o.stop text.toList = some ('{' :: path ++ ['}']) := by
  obtain ⟨kind, -, held⟩ := mem_occurrences_iff.1 member
  cases written : o.placeholder with
  | scalar path => exact ⟨path, rfl, by rw [held, written]; rfl⟩
  | collection path property =>
      rw [written] at kind
      cases kind

/-! ### The first collection -/

section first

variable {text : String} {use : CollectionUse}

/-- The first collection is the first of the occurrences. -/
theorem exists_of_firstCollection? (first : firstCollection? text = some use) :
    ∃ path property start rest,
      occurrences .collection text = ⟨start, .collection path property⟩ :: rest ∧
      use = ⟨String.ofList path, property.map String.ofList, start,
        start + Text.bytes (Placeholder.collection path property).text⟩ := by
  rw [firstCollection?] at first
  cases found : occurrences .collection text with
  | nil =>
      rw [found] at first
      cases first
  | cons o rest =>
      obtain ⟨start, p⟩ := o
      have member : ⟨start, p⟩ ∈ occurrences .collection text := found ▸ List.mem_cons_self ..
      cases p with
      | scalar path => cases (wellFormed_of_mem_occurrences member).1
      | collection path property =>
          rw [found] at first
          cases first
          exact ⟨path, property, start, rest, rfl, rfl⟩

/-- A collection that the scan comes to first, with its two paths. It stands in the text as it is
written, no other one stands before it, and it is found again in what it is written as. -/
structure CollectionUse.Leads (use : CollectionUse) (text : String) : Prop where
  held : Text.slice? use.start use.stop text.toList = some use.sourceText.toList
  path : use.collection.toList ∈ Words.path
  property : ∀ property, use.property = some property → property.toList ∈ Words.path
  least : ∀ start stop, PlaceholderKind.collection.WordAt text start stop → use.start ≤ start
  again : ∃ again, firstCollection? use.sourceText = some again ∧
    again.collection = use.collection ∧ again.property = use.property

theorem start_le_of_firstCollection? (first : firstCollection? text = some use) {start stop : Nat}
    (word : PlaceholderKind.collection.WordAt text start stop) : use.start ≤ start := by
  obtain ⟨path, property, least, rest, found, rfl⟩ := exists_of_firstCollection? first
  obtain ⟨o, inside, rfl, -⟩ := exists_occurrence_iff.2 word
  have ascending : (occurrences .collection text).Pairwise fun o next => o.stop ≤ next.start :=
    Occurrence.among_ascending 0 _
  rw [found] at inside ascending
  rcases List.mem_cons.1 inside with rfl | later
  · exact Nat.le_refl _
  · exact Nat.le_trans (Nat.le_add_right _ _) ((List.pairwise_cons.1 ascending).1 o later)

theorem leads_of_firstCollection? (first : firstCollection? text = some use) : use.Leads text := by
  obtain ⟨path, property, start, rest, found, rfl⟩ := exists_of_firstCollection? first
  have member : ⟨start, .collection path property⟩ ∈ occurrences .collection text :=
    found ▸ List.mem_cons_self ..
  obtain ⟨-, good, held⟩ := mem_occurrences_iff.1 member
  refine ⟨?_, ?_, ?_, fun _ _ word => start_le_of_firstCollection? first word, ?_⟩
  · rw [sourceText_of_text, String.toList_ofList]
    exact held
  · rw [String.toList_ofList]
    exact Words.mem_path.2 good.1
  · intro name present
    obtain ⟨inner, inside, rfl⟩ := Option.map_eq_some_iff.1 present
    rw [String.toList_ofList]
    exact Words.mem_path.2 (good.2 inner inside)
  · rw [sourceText_of_text]
    exact ⟨_, firstCollection?_text good, rfl, rfl⟩

end first

/-- The scan of a text for placeholders of a kind finds exactly the places at which a word of the
pattern stands, in ascending order and without overlap, a scalar with the path that is written
there. The first collection, if there is one, is the leftmost of its places, with its two paths, and
is found again in what it is written as. -/
theorem scan_finds_words (text : String) :
    (∀ kind : PlaceholderKind,
      ((occurrences kind text).Pairwise fun o next => o.stop ≤ next.start) ∧
      (∀ o ∈ occurrences kind text, o.start < o.stop) ∧
      ∀ start stop, (∃ o ∈ occurrences kind text, o.start = start ∧ o.stop = stop) ↔
        kind.WordAt text start stop) ∧
    (∀ o ∈ occurrences .scalar text, ∃ path, o.placeholder = .scalar path ∧
      Text.slice? o.start o.stop text.toList = some ('{' :: path ++ ['}'])) ∧
    ((firstCollection? text).isSome = true ↔
      ∃ start stop, PlaceholderKind.collection.WordAt text start stop) ∧
    ∀ use, firstCollection? text = some use → use.Leads text := by
  refine ⟨fun kind => ⟨Occurrence.among_ascending 0 _, fun o _ => o.start_lt_stop,
    fun start stop => exists_occurrence_iff⟩, ?_, ?_, ?_⟩
  · exact fun o member => exists_path_of_mem_occurrences member
  · rw [← hasPlaceholder_collection]
    exact hasPlaceholder_iff
  · exact fun use first => leads_of_firstCollection? first

/-- A slogan in which a bracket and a brace are not closed. -/
def slogan : String := "«[[Team:Lead.Name]\x7bA\x7b::\x7d"

theorem slogan_places :
    firstCollection? slogan = some ⟨"Team:Lead", some "Name", 3, 19⟩ ∧
      Text.slice? 3 19 slogan.toList = some "[Team:Lead.Name]".toList ∧
      (∀ start stop, PlaceholderKind.collection.WordAt slogan start stop → 3 ≤ start) ∧
      (occurrences .scalar slogan).map (fun o => (o.start, o.stop)) = [(21, 25)] ∧
      PlaceholderKind.scalar.WordAt slogan 21 25 := by
  have first : firstCollection? slogan = some ⟨"Team:Lead", some "Name", 3, 19⟩ := by cbv
  have scalars : occurrences .scalar slogan = [⟨21, .scalar [':', ':']⟩] := by cbv
  obtain ⟨ranges, -, -, leftmost⟩ := scan_finds_words slogan
  have leads := leftmost _ first
  have word := (ranges .scalar).2.2 21 25
  refine ⟨first, leads.held, leads.least, by rw [scalars]; decide, word.1 ?_⟩
  rw [scalars]
  exact ⟨_, List.mem_singleton_self _, rfl, by decide⟩

end Stencil
