import Stencil.Fill.Survey
import Stencil.Fill.Scalar
import Stencil.Proofs.Attempt
import Stencil.Proofs.Placeholder.Scan

/-! Two sources that agree on what a text asks for. What is filled into the text is then the same
for both. -/

namespace Stencil

/-- What a placeholder looks up. -/
def Placeholder.path : Placeholder → String
  | scalar path => String.ofList path
  | collection path _ => String.ofList path

/-- The path that is looked up for a placeholder of a survey. -/
def PlaceholderUse.path? (use : PlaceholderUse) : Option String :=
  match use.kind with
  | .scalar => scalarPath? use.text
  | .collection => (firstCollection? use.text).map CollectionUse.collection

namespace Source

/-- Both sources have the same value in the same format at a path, or both have none. -/
def AgreeAt (first second : Source) (path : String) : Prop :=
  (first.get? path).map (fun found => (found.value, found.format)) =
    (second.get? path).map fun found => (found.value, found.format)

/-- The sources agree on the placeholders of one kind. -/
def AgreeOn (kind : PlaceholderKind) (first second : Source) (uses : List PlaceholderUse) : Prop :=
  ∀ use ∈ uses, use.kind = kind → ∀ path, use.path? = some path → AgreeAt first second path

variable {first second : Source} {path : String}

theorem AgreeOn.of_subset {kind : PlaceholderKind} {uses fewer : List PlaceholderUse}
    (agree : AgreeOn kind first second uses) (subset : fewer ⊆ uses) :
    AgreeOn kind first second fewer :=
  fun use member => agree use (subset member)

theorem AgreeOn.of_single {kind : PlaceholderKind} {use : PlaceholderUse}
    {uses : List PlaceholderUse} (listed : uses = [use]) (asks : use.path? = some path)
    (agree : AgreeAt first second path) : AgreeOn kind first second uses := by
  intro other member _ path' found
  rw [listed, List.mem_singleton] at member
  rw [member] at found
  cases asks.symm.trans found
  exact agree

theorem AgreeAt.cases (agree : AgreeAt first second path) :
    first.get? path = none ∧ second.get? path = none ∨
      ∃ a b, first.get? path = some a ∧ second.get? path = some b ∧ a.value = b.value ∧
        a.format = b.format := by
  unfold AgreeAt at agree
  cases here : first.get? path with
  | none =>
      rw [here, Option.map_none, eq_comm, Option.map_eq_none_iff] at agree
      exact .inl ⟨rfl, agree⟩
  | some a =>
      rw [here, Option.map_some, eq_comm, Option.map_eq_some_iff] at agree
      obtain ⟨b, there, same⟩ := agree
      obtain ⟨value, format⟩ := Prod.mk.inj same
      exact .inr ⟨a, b, rfl, there, value.symm, format.symm⟩

theorem AgreeAt.items?_eq (agree : AgreeAt first second path) :
    first.items? path = second.items? path := by
  show (first.get? path).bind _ = (second.get? path).bind _
  rcases agree.cases with ⟨here, there⟩ | ⟨a, b, here, there, value, -⟩
  · rw [here, there]
  · rw [here, there, Option.bind_some, Option.bind_some, value]

end Source

theorem Resolved.render_congr {a b : Resolved} (value : a.value = b.value)
    (format : a.format = b.format) (options : FillOptions) :
    a.render options = b.render options := by
  rw [Resolved.render, value, format, Resolved.render]

/-! ### What a survey lists -/

theorem Occurrence.mem_mergeByStart {o : Occurrence} (first second : List Occurrence) :
    o ∈ mergeByStart first second ↔ o ∈ first ∨ o ∈ second := by
  fun_induction mergeByStart first second with
  | case1 second => simp
  | case2 first => simp
  | case3 a first b second low ih =>
      rw [List.mem_cons, ih, List.mem_cons (a := o) (b := a), or_assoc]
  | case4 a first b second high ih =>
      rw [List.mem_cons, ih, List.mem_cons (a := o) (b := b), or_left_comm]

theorem scalarPath?_of_kind {p : Placeholder} (good : p.WellFormed) (kind : p.kind = .scalar) :
    scalarPath? (String.ofList p.text) = some p.path := by
  cases p with
  | scalar path => exact scalarPath?_text good
  | collection path property => cases kind

/-- A placeholder that a survey lists is looked up under the path it had in its text. -/
theorem path?_of_mem_occurrences {kind : PlaceholderKind} {text : String} {o : Occurrence}
    (member : o ∈ occurrences kind text) (location : Location) :
    PlaceholderUse.path? ⟨kind, String.ofList o.placeholder.text, location⟩ =
      some o.placeholder.path := by
  obtain ⟨same, good⟩ := wellFormed_of_mem_occurrences member
  cases kind with
  | scalar => exact scalarPath?_of_kind good same
  | collection =>
      cases shape : o.placeholder with
      | scalar path =>
          rw [shape] at same
          cases same
      | collection path property =>
          rw [shape] at good
          simp only [PlaceholderUse.path?, firstCollection?_text good, Option.map_some,
            Placeholder.path]

theorem mem_placeholdersIn {kind : PlaceholderKind} {text : String} {o : Occurrence}
    (member : o ∈ occurrences kind text) (location : Location) :
    ⟨kind, String.ofList o.placeholder.text, location⟩ ∈ placeholdersIn text location := by
  have same := (wellFormed_of_mem_occurrences member).1
  refine List.mem_map.2 ⟨o, (Occurrence.mem_mergeByStart ..).2 ?_, by rw [same]⟩
  cases kind with
  | scalar => exact .inr member
  | collection => exact .inl member

variable {kind : PlaceholderKind} {first second : Source} {text : String} {location : Location}

/-- Sources that agree on the survey of a text agree on every placeholder in it. -/
theorem Source.AgreeOn.at_occurrence
    (agree : AgreeOn kind first second (placeholdersIn text location)) {o : Occurrence}
    (member : o ∈ occurrences kind text) : AgreeAt first second o.placeholder.path :=
  agree _ (mem_placeholdersIn member location) rfl _ (path?_of_mem_occurrences member location)

theorem exists_occurrence_of_firstCollection? {use : CollectionUse}
    (found : firstCollection? text = some use) :
    ∃ o ∈ occurrences .collection text, o.placeholder.path = use.collection := by
  obtain ⟨o, member, same⟩ := List.exists_of_findSome?_eq_some found
  refine ⟨o, member, ?_⟩
  unfold CollectionUse.ofOccurrence? at same
  cases shape : o.placeholder with
  | scalar path =>
      rw [shape] at same
      cases same
  | collection path property =>
      rw [shape] at same
      cases same
      rfl

theorem exists_occurrence_of_scalarPath? {path : String} (found : scalarPath? text = some path) :
    ∃ o ∈ occurrences .scalar text, o.placeholder.path = path := by
  obtain ⟨piece, member, same⟩ := List.exists_of_findSome?_eq_some found
  cases piece with
  | plain c => cases same
  | placeholder p =>
      obtain ⟨o, inText, rfl⟩ := exists_occurrence member
      refine ⟨o, inText, ?_⟩
      cases shape : o.placeholder with
      | scalar path =>
          rw [shape] at same
          exact Option.some.inj same
      | collection path property =>
          rw [shape] at same
          cases same

/-! ### Paragraphs -/

theorem Cursor.exists_of_mem_alignAll {cursor : Cursor} {found : List Occurrence}
    {alignment : Alignment} (member : alignment ∈ cursor.alignAll found) :
    ∃ o ∈ found, alignment.key = String.ofList o.placeholder.text := by
  induction found generalizing cursor with
  | nil => cases member
  | cons o rest ih =>
      rcases List.mem_cons.1 member with rfl | later
      · exact ⟨o, List.mem_cons_self .., rfl⟩
      · obtain ⟨o', inRest, same⟩ := ih later
        exact ⟨o', List.mem_cons_of_mem _ inRest, same⟩

namespace Paragraph

variable {options : FillOptions}

theorem ofList_fragments (p : Paragraph) :
    String.ofList (p.fragments.flatMap String.toList) = p.text := by
  rw [fragments, List.flatMap_map, text]

/-- An alignment asks for the path of a placeholder of the text. -/
theorem agreeAt_of_mem_align {p : Paragraph} {alignment : Alignment} {path : String}
    (agree : ∀ o ∈ occurrences .scalar p.text, first.AgreeAt second o.placeholder.path)
    (member : alignment ∈ align .scalar p.fragments)
    (found : scalarPath? alignment.key = some path) :
    first.AgreeAt second path := by
  obtain ⟨o, inText, key⟩ := Cursor.exists_of_mem_alignAll member
  rw [ofList_fragments] at inText
  obtain ⟨kind, good⟩ := wellFormed_of_mem_occurrences inText
  rw [key, scalarPath?_of_kind good kind] at found
  cases found
  exact agree o inText

theorem fillAligned_congr {alignments : List Alignment}
    (agree : ∀ alignment ∈ alignments, ∀ path, scalarPath? alignment.key = some path →
      first.AgreeAt second path) (p : Paragraph) (outcome : Outcome) :
    fillAligned first options alignments p outcome =
      fillAligned second options alignments p outcome := by
  induction alignments generalizing p outcome with
  | nil => rfl
  | cons alignment earlier ih =>
      have others := ih fun other member => agree other (List.mem_cons_of_mem _ member)
      rw [fillAligned, fillAligned]
      cases path : scalarPath? alignment.key with
      | none => exact others p outcome
      | some path' =>
          rw [Option.map_some, Option.map_some]
          rcases (agree alignment (List.mem_cons_self ..) path' path).cases with
            ⟨here, there⟩ | ⟨a, b, here, there, value, format⟩
          · rw [here, there]
            exact others p _
          · rw [here, there]
            dsimp only
            rw [Resolved.render_congr value format]
            exact Attempt.andThen_congr rfl fun _ _ _ => others _ _

/-- Sources that agree on the scalars of a paragraph fill it alike. -/
theorem fillScalars_congr {p : Paragraph}
    (agree : ∀ o ∈ occurrences .scalar p.text, first.AgreeAt second o.placeholder.path) :
    p.fillScalars first options = p.fillScalars second options := by
  unfold fillScalars
  dsimp only
  split
  · rfl
  · split
    · cases path : scalarPath? p.text with
      | none => rfl
      | some path' =>
          obtain ⟨o, inText, rfl⟩ := exists_occurrence_of_scalarPath? path
          rw [Option.map_some, Option.map_some]
          rcases (agree o inText).cases with ⟨here, there⟩ | ⟨a, b, here, there, value, format⟩
          · rw [here, there]
          · rw [here, there]
            dsimp only
            rw [Resolved.render_congr value format]
    · apply fillAligned_congr
      intro alignment member path found
      exact agreeAt_of_mem_align agree (List.mem_reverse.1 member) found

end Paragraph

end Stencil
