import Stencil.Proofs.Sheet.Unresolved

/-! The placeholders that are left in a sheet after a fill, and the entries of the report for
them. -/

namespace Stencil

variable {given : String → Prop} {source : Source} {options : FillOptions}
  {s middle last : Sheet} {old report : Report} {own : List CellText} {row : Nat}
  {columns : List Nat} {more : List UnresolvedPlaceholder}

theorem Source.kind_of_fails {p : Placeholder} (good : p.WellFormed)
    (fails : source.fails (String.ofList p.text) = true) : p.kind = .collection := by
  rw [Source.fails, hasPlaceholder_text good, Bool.and_eq_true, beq_iff_eq] at fails
  exact fails.1.symm

theorem Source.filter_placeholdersIn (source : Source) {text : String}
    (texts : Stencil.Unmarked text ∨ IsPlaceholder text) (location : Location) :
    (placeholdersIn text location).filter (fun use => source.fails use.text) =
      if source.fails text then [⟨.collection, text, location⟩] else [] := by
  rcases texts with unmarked | ⟨p, good, rfl⟩
  · rw [unmarked.placeholdersIn, fails_of_none unmarked.firstCollection?]
    rfl
  · rw [placeholdersIn_text good]
    simp only [List.filter_cons, List.filter_nil]
    by_cases fails : source.fails (String.ofList p.text) = true
    · rw [if_pos fails, if_pos fails, kind_of_fails good fails]
    · rw [if_neg fails, if_neg fails]

/-- The failing placeholders of a survey are the failing texts of the sheet. -/
theorem Sheet.Among.filter_placeholders (among : s.Among IsPlaceholder) (source : Source) :
    (s.placeholders.filter fun use => source.fails use.text).map PlaceholderUse.entry =
      (s.texts.filter fun place => source.fails place.text).map fun place => place.entry s.name := by
  have texts : ∀ place ∈ s.texts, Unmarked place.text ∨ IsPlaceholder place.text :=
    fun place member => among _ _ _ (Sheet.mem_texts.1 member)
  rw [placeholders_eq_texts]
  generalize s.texts = found at texts
  induction found with
  | nil => rfl
  | cons place rest ih =>
      have others := ih fun later member => texts later (List.mem_cons_of_mem _ member)
      rw [List.flatMap_cons, List.filter_append,
        source.filter_placeholdersIn (texts place (List.mem_cons_self ..)), List.map_append, others,
        List.filter_cons]
      split <;> rfl

/-- The placeholders after a fill, as the entries that the fill has added to its report tell of
them. -/
structure Leftover (source : Source) (steady : Prop) (before after : List PlaceholderUse)
    (listed : List UnresolvedPlaceholder) : Prop where
  shown : ∀ use ∈ after, use.entry ∈ listed ∨
    use.kind = .collection ∧ source.asked? use.text = some []
  origin : ∀ use ∈ after, ∃ earlier ∈ before, earlier.kind = use.kind ∧ earlier.text = use.text
  placed : steady → listed.filter (fun entry => source.fails entry.placeholder) =
    (after.filter fun use => source.fails use.text).map PlaceholderUse.entry

theorem Leftover.append {first second : Prop} {before before' after after' : List PlaceholderUse}
    {listed listed' : List UnresolvedPlaceholder}
    (left : Leftover source first before after listed)
    (right : Leftover source second before' after' listed') :
    Leftover source (first ∧ second) (before ++ before') (after ++ after')
      (listed ++ listed') where
  shown use member := by
    rcases List.mem_append.1 member with inLeft | inRight
    · exact (left.shown use inLeft).imp_left (List.mem_append_left _)
    · exact (right.shown use inRight).imp_left (List.mem_append_right _)
  origin use member := by
    rcases List.mem_append.1 member with inLeft | inRight
    · obtain ⟨earlier, inside, same⟩ := left.origin use inLeft
      exact ⟨earlier, List.mem_append_left _ inside, same⟩
    · obtain ⟨earlier, inside, same⟩ := right.origin use inRight
      exact ⟨earlier, List.mem_append_right _ inside, same⟩
  placed steady := by
    rw [List.filter_append, List.filter_append, List.map_append, left.placed steady.1,
      right.placed steady.2]

/-- No scalar placeholder fails. -/
theorem Sheet.Among.filter_reportOn (among : s.Among given)
    (whole : ∀ text, given text → IsPlaceholder text) (source : Source) :
    (source.reportOn s.placeholders).unresolved.filter
      (fun entry => source.fails entry.placeholder) = [] := by
  rw [List.filter_eq_nil_iff]
  intro entry member
  obtain ⟨use, unanswered, rfl⟩ := List.mem_map.1 member
  obtain ⟨scalar, kind⟩ := List.mem_filter.1 (List.mem_filter.1 unanswered).1
  obtain ⟨r, c, p, good, -, -, rfl⟩ := among.exists_of_mem_placeholders whole scalar
  rw [decide_eq_true_eq] at kind
  have unfailing := source.fails_of_none (firstCollection?_of_scalar good kind)
  rw [PlaceholderUse.entry, unfailing]
  exact Bool.false_ne_true

/-- A scalar placeholder without a value is reported where it stands. -/
theorem Sheet.mem_reportOn {p : Placeholder} (good : p.WellFormed) (kind : p.kind = .scalar)
    {r c : Nat} (held : s.text? r c = some (String.ofList p.text))
    (absent : source.get? p.path = none) :
    ⟨.cell s.name r c, String.ofList p.text⟩ ∈ (source.reportOn s.placeholders).unresolved := by
  have member := mem_placeholders good held
  rw [kind] at member
  have unanswered : source.answers ⟨.scalar, String.ofList p.text, .cell s.name r c⟩ = false := by
    rw [Source.answers_scalar good kind, absent]
    rfl
  refine List.mem_map.2 ⟨_, List.mem_filter.2 ⟨List.mem_filter.2 ⟨member, ?_⟩, ?_⟩, rfl⟩
  · rfl
  · rw [unanswered]
    rfl

namespace Listed

variable (listed : Listed given source options s old row columns middle report own)
  (whole : ∀ text, given text → IsPlaceholder text) (data : source.Unmarked options)
  (past : middle.height ≤ row) (name : last.name = middle.name)
  (cells : ∀ r c, last.cell? r c = (middle.cell? r c).map (Cell.refilled source options))

include listed whole data cells

/-- The scalar pass leaves the failing texts as they are, and it adds none. -/
theorem text_failing {r c : Nat} {text : String} (fails : source.fails text = true) :
    last.text? r c = some text ↔ middle.text? r c = some text := by
  have marked : ¬Unmarked text := by
    intro unmarked
    rw [Source.fails_of_none unmarked.firstCollection?] at fails
    cases fails
  constructor
  · intro held
    exact ((listed.among.refilled whole data cells held).resolve_left marked).2.1
  · intro held
    obtain ⟨p, good, rfl⟩ := whole text ((listed.among r c text held).resolve_left marked)
    have scalars := hasPlaceholder_text good .scalar
    rw [Source.kind_of_fails good fails] at scalars
    rw [Sheet.text?_of_refilled cells, held, Option.bind_some, Source.filledValue?_of_none scalars]
    rfl

include past name

theorem shown (failing : more.filter (fun entry => source.fails entry.placeholder) =
      own.map fun place => place.entry s.name) {use : PlaceholderUse}
    (member : use ∈ last.placeholders) :
    use.entry ∈ more ++ (source.reportOn middle.placeholders).unresolved ∨
      use.kind = .collection ∧ source.asked? use.text = some [] := by
  have texts : last.Among IsPlaceholder := fun r c text held =>
    (listed.among.refilled whole data cells held).imp_right fun left => whole text left.1
  obtain ⟨r, c, p, good, marked, held, rfl⟩ :=
    texts.exists_of_mem_placeholders (fun _ same => same) member
  obtain ⟨-, there, unfilled⟩ :=
    (listed.among.refilled whole data cells held).resolve_left marked.not_unmarked
  rw [name]
  cases kind : p.kind with
  | scalar =>
      rw [source.filledValue?_text options good kind, Option.map_eq_none_iff] at unfilled
      exact .inl (List.mem_append_right _ (Sheet.mem_reportOn good kind there unfilled))
  | collection =>
      rcases Source.asked?_of_written (listed.written_eq_nil past there) with absent | empty
      · have fails : source.fails (String.ofList p.text) = true := by
          rw [Source.fails, hasPlaceholder_text good, kind, absent]
          rfl
        have known : CellText.mk r c (String.ofList p.text) ∈ own := listed.mem_own past there fails
        have entry := List.mem_map_of_mem (f := fun place => CellText.entry place s.name) known
        rw [← failing, ← listed.name] at entry
        exact .inl (List.mem_append_left _ (List.mem_filter.1 entry).1)
      · exact .inr ⟨rfl, empty⟩

theorem placed (failing : more.filter (fun entry => source.fails entry.placeholder) =
      own.map fun place => place.entry s.name) (steady : s.Steady source options) :
    (more ++ (source.reportOn middle.placeholders).unresolved).filter
        (fun entry => source.fails entry.placeholder) =
      (last.placeholders.filter fun use => source.fails use.text).map PlaceholderUse.entry := by
  have texts : last.Among IsPlaceholder := fun r c text held =>
    (listed.among.refilled whole data cells held).imp_right fun left => whole text left.1
  have same : own = last.texts.filter fun place => source.fails place.text := by
    rw [listed.own_eq past steady]
    apply Sheet.eq_filter_texts source.fails (middle.texts_pairwise.filter _)
    intro place
    rw [List.mem_filter, Sheet.mem_texts]
    exact and_congr_left fun fails => (listed.text_failing whole data cells fails).symm
  rw [List.filter_append, failing, listed.among.filter_reportOn whole source, List.append_nil,
    texts.filter_placeholders source, same, name, listed.name]

end Listed

/-- Filling a sheet of whole placeholders comes to an end if there is headroom for the items, and it
lists the placeholders that are left. -/
theorem Sheet.Among.fill_leftover (among : s.Among IsPlaceholder) (data : source.Unmarked options)
    (report : Report) :
    ∃ enough last report' listed,
      (∀ counting, s.Headroom counting (s.itemCount source) →
        (∀ bound ≥ enough,
          s.fill source options false bound report counting = some (.done last report')) ∧
        last.Headroom counting 0) ∧
      report'.unresolved = report.unresolved ++ listed ∧
      Leftover source (s.Steady source options) s.placeholders last.placeholders listed := by
  let given : String → Prop := fun text => IsPlaceholder text ∧ ∃ r c, s.text? r c = some text
  have whole : ∀ text, given text → IsPlaceholder text := fun _ left => left.1
  have texts : s.Among given := fun r c text held =>
    (among r c text held).imp_right fun good => ⟨good, r, c, held⟩
  obtain ⟨enough, last, report', ends⟩ := fill_ends_of_shallow (among.shallow data) report
  obtain ⟨middle, between, collections, scalars⟩ := fill_eq_done_iff.1
    ((ends .endless (s.headroom_endless _)).1 enough (Nat.le_refl enough))
  obtain ⟨_, _, behind, done, past, own, walked⟩ := walk_reports
    (fun row columns t now => ∃ own, Listed given source options s report row columns t now own)
    (fun row column rest t now ⟨own, walked⟩ => by
      obtain ⟨next, outcome, ran, visit⟩ := visitCollections_cases source options t row column
      exact ⟨next, outcome, ran, walked.step whole data visit⟩)
    (fun _ _ _ ⟨own, walked⟩ => ⟨own, walked.next⟩)
    (fun _ above => ⟨[], .start texts whole data above report⟩) collections
  cases done
  obtain ⟨_, done, name, cells⟩ := walk_scalars_reports scalars
  cases done
  obtain ⟨more, grown, failing⟩ := walked.reported
  refine ⟨enough, last, _, more ++ (source.reportOn middle.placeholders).unresolved, ends, ?_, ?_⟩
  · rw [Report.merge, grown, List.append_assoc]
  · refine ⟨fun use => walked.shown whole data past name cells failing, ?_,
      walked.placed whole data past name cells failing⟩
    intro use member
    have left : last.Among given := fun r c text held =>
      (walked.among.refilled whole data cells held).imp_right fun left => left.1
    obtain ⟨-, -, p, good, ⟨-, r, c, held⟩, -, rfl⟩ := left.exists_of_mem_placeholders whole member
    exact ⟨_, mem_placeholders good held, rfl, rfl⟩

end Stencil
