import Stencil.Proofs.Sheet.Leftover

/-! What a fill leaves in a workbook of whole placeholders. A placeholder that is left is listed in
the report with the place where it stands, unless it asks for an empty sequence: such a collection is
counted as expanded, but its cell stays as it is. -/

namespace Stencil.Workbook

variable {source : Source} {options : FillOptions}

theorem fillSheets_leftover {sheets : List Sheet} (among : ∀ s ∈ sheets, s.Among IsPlaceholder)
    (data : source.Unmarked options) (report : Report) :
    ∃ enough last report' listed,
      (∀ counting, (∀ s ∈ sheets, s.Headroom counting (s.itemCount source)) →
        (∀ bound ≥ enough, fillSheets source options false bound sheets report counting =
          some (.done last report')) ∧
        ∀ s ∈ last, s.Headroom counting 0) ∧
      report'.unresolved = report.unresolved ++ listed ∧
      Leftover source (∀ s ∈ sheets, s.Steady source options)
        (sheets.flatMap fun s => s.placeholders) (last.flatMap fun s => s.placeholders) listed := by
  induction sheets generalizing report with
  | nil =>
      refine ⟨0, [], report, [], fun _ _ => ⟨fun _ _ => rfl, List.forall_mem_nil _⟩,
        (List.append_nil _).symm, ?_⟩
      exact
        { shown := fun use member => by cases member
          origin := fun use member => by cases member
          placed := fun _ => rfl }
  | cons s rest ih =>
      obtain ⟨first, filled, between, here, fills, grown, left⟩ :=
        (among s (List.mem_cons_self ..)).fill_leftover data report
      obtain ⟨second, others, report', later, ends, grows, right⟩ :=
        ih (fun t member => among t (List.mem_cons_of_mem _ member)) between
      refine ⟨max first second, filled :: others, report', here ++ later, ?_, ?_, ?_⟩
      · intro counting headroom
        obtain ⟨roomHere, roomThere⟩ := List.forall_mem_cons.1 headroom
        obtain ⟨fills, below⟩ := fills counting roomHere
        obtain ⟨ends, belowOthers⟩ := ends counting roomThere
        refine ⟨fun bound large => ?_, List.forall_mem_cons.2 ⟨below, belowOthers⟩⟩
        exact fillSheets_cons (fills bound (by omega)) (ends bound (by omega))
      · rw [grows, grown, List.append_assoc]
      · rw [List.flatMap_cons, List.flatMap_cons]
        have both := left.append right
        rwa [← List.forall_mem_cons] at both

theorem fill_leftover {w : Workbook} {counting : Counting}
    (among : ∀ s ∈ w.sheets, s.Among IsPlaceholder) (data : source.Unmarked options)
    (headroom : ∀ s ∈ w.sheets, s.Headroom counting (s.itemCount source)) :
    ∃ enough last report,
      (∀ bound ≥ enough, w.fill source options false bound counting = some (.done last report)) ∧
      Leftover source (∀ s ∈ w.sheets, s.Steady source options) (w.placeholders counting)
        (last.placeholders counting) report.unresolved := by
  obtain ⟨enough, sheets, report, listed, ends, grown, left⟩ := fillSheets_leftover among data {}
  obtain ⟨ends, below⟩ := ends counting headroom
  refine ⟨enough, ⟨sheets⟩, report, ?_, ?_⟩
  · intro bound large
    rw [fill, ends bound large]
    rfl
  · have after : (Workbook.mk sheets).placeholders counting = (Workbook.mk sheets).placeholders :=
      placeholders_counted fun s member => (below s member).columns
    have before : w.placeholders counting = w.placeholders :=
      placeholders_counted fun s member => (headroom s member).columns
    rw [before, after, grown]
    exact left

/-- If the report of a fill is complete, then nothing is left but collections of the template for
which the data has an empty sequence. In machine words there has to be headroom for the items that
the sheets ask for. -/
theorem complete_fill_leaves_empty (source : Source) (options : FillOptions) (w : Workbook)
    (counting : Counting) (among : ∀ s ∈ w.sheets, s.Among IsPlaceholder)
    (data : source.Unmarked options)
    (headroom : ∀ s ∈ w.sheets, s.Headroom counting (s.itemCount source)) :
    ∃ enough last report,
      (∀ bound ≥ enough, w.fill source options false bound counting = some (.done last report)) ∧
      (report.isComplete = true → ∀ use ∈ last.placeholders counting,
        use.kind = .collection ∧ source.asked? use.text = some [] ∧
          ∃ before ∈ w.placeholders counting, before.kind = .collection ∧
            before.text = use.text) := by
  obtain ⟨enough, last, report, ends, left⟩ := fill_leftover among data headroom
  refine ⟨enough, last, report, ends, ?_⟩
  intro complete use member
  have none : report.unresolved = [] := List.isEmpty_iff.1 complete
  have unlisted : use.entry ∉ report.unresolved := by
    rw [none]
    exact List.not_mem_nil
  obtain ⟨kind, empty⟩ := (left.shown use member).resolve_left unlisted
  obtain ⟨before, inside, same, text⟩ := left.origin use member
  exact ⟨kind, empty, before, inside, same.trans kind, text⟩

/-- A list of guests with a date, and one of helpers below it. -/
def guestList : Workbook :=
  ⟨[Sheet.ofTexts [(0, [(0, "[Guest]"), (2, "{Date}")]), (1, [(0, "[Helper]"), (1, "Help")])]]⟩

/-- Two guests, and nobody who helps. -/
def party : Source :=
  .ofValue (.mapping [("Guest", .sequence [.text "Ann", .text "Bob"]), ("Helper", .sequence []),
    ("Date", .text "May 1")])

theorem guestList_among : ∀ s ∈ guestList.sheets, s.Among IsPlaceholder := by
  intro s member
  rw [List.mem_singleton.1 member]
  exact Sheet.among_of_allTexts (by cbv)

theorem party_unmarked : party.Unmarked {} := Source.unmarked_of_isUnmarked (by cbv)

theorem guestList_headroom :
    ∀ s ∈ guestList.sheets, s.Headroom .words (s.itemCount party) := by
  intro s member
  rw [List.mem_singleton.1 member]
  have items : (Sheet.ofTexts [(0, [(0, "[Guest]"), (2, "{Date}")]),
      (1, [(0, "[Helper]"), (1, "Help")])]).itemCount party = 2 := by cbv
  rw [items]
  decide

theorem guestList_filled :
    ∃ last, guestList.fill party {} false 4 .words =
        some (.done last { scalarsFilled := 1, collectionsExpanded := 2, rowsEmitted := 2 }) ∧
      last.placeholders .words = [⟨.collection, "[Helper]", .cell "" 2 0⟩] := by
  refine ⟨((guestList.fill party {} false 4 .words).map Attempt.target).getD {}, ?_, ?_⟩ <;> cbv

/-- The report on the party is complete, so nothing but the helpers can be left. -/
theorem guestList_leaves_empty :
    ((∀ s ∈ guestList.sheets, s.Among IsPlaceholder) ∧ party.Unmarked {} ∧
      ∀ s ∈ guestList.sheets, s.Headroom .words (s.itemCount party)) ∧
    ∃ last report, guestList.fill party {} false 4 .words = some (.done last report) ∧
      report.isComplete = true ∧ ∀ use ∈ last.placeholders .words,
        use.kind = .collection ∧ party.asked? use.text = some [] ∧
          ∃ before ∈ guestList.placeholders .words, before.kind = .collection ∧
            before.text = use.text := by
  obtain ⟨last, filled, -⟩ := guestList_filled
  obtain ⟨enough, last', report, ends, left⟩ := complete_fill_leaves_empty party {} guestList .words
    guestList_among party_unmarked guestList_headroom
  have same := fill_of_le filled (Nat.le_max_right enough 4)
  rw [ends _ (Nat.le_max_left enough 4)] at same
  cases same
  exact ⟨⟨guestList_among, party_unmarked, guestList_headroom⟩, last, _, filled, rfl, left rfl⟩

/-- The helpers are left. -/
theorem complete_fill_leaves_some :
    ¬∀ (source : Source) (options : FillOptions) (w last : Workbook) (bound : Nat)
      (report : Report), (∀ s ∈ w.sheets, s.Among IsPlaceholder) → source.Unmarked options →
        w.fill source options false bound .words = some (.done last report) →
          report.isComplete = true → last.placeholders .words = [] := by
  intro claim
  obtain ⟨last, filled, left⟩ := guestList_filled
  have nothing := claim party {} guestList last 4 _ guestList_among party_unmarked filled rfl
  rw [left] at nothing
  cases nothing

/-- Every collection that has no sequence in the data is listed where it stands after the fill.
Nothing else is listed for such collections, and the order is that of the survey, if none of them is
to the left of a merged cell that expands. In machine words there has to be headroom for the items
that the sheets ask for. -/
theorem fill_lists_failing (source : Source) (options : FillOptions) (w : Workbook)
    (counting : Counting) (among : ∀ s ∈ w.sheets, s.Among IsPlaceholder)
    (data : source.Unmarked options)
    (headroom : ∀ s ∈ w.sheets, s.Headroom counting (s.itemCount source)) :
    ∃ enough last report,
      (∀ bound ≥ enough, w.fill source options false bound counting = some (.done last report)) ∧
      (∀ use ∈ last.placeholders counting, source.fails use.text = true →
        use.entry ∈ report.unresolved) ∧
      ((∀ s ∈ w.sheets, s.Steady source options) →
        report.unresolved.filter (fun entry => source.fails entry.placeholder) =
          ((last.placeholders counting).filter fun use => source.fails use.text).map
            PlaceholderUse.entry) := by
  obtain ⟨enough, last, report, ends, left⟩ := fill_leftover among data headroom
  refine ⟨enough, last, report, ends, ?_, left.placed⟩
  intro use member fails
  apply (left.shown use member).resolve_right
  rintro ⟨-, empty⟩
  rw [Source.fails, empty] at fails
  simp at fails

/-- A list of names with marks, and the same mark again at the end. -/
def markList : Workbook :=
  ⟨[Sheet.ofTexts [(0, [(0, "[Mark]"), (1, "[Name]")]), (1, [(0, "[Mark]"), (1, "End")])]]⟩

/-- Two names, and no marks. -/
def names : Source := .ofValue (.mapping [("Name", .sequence [.text "Ann", .text "Bob"])])

theorem names_unmarked : names.Unmarked {} := Source.unmarked_of_isUnmarked (by cbv)

/-- The second name pushes the last row down, before the mark in it is listed. -/
theorem markList_lists_failing :
    ((∀ s ∈ markList.sheets, s.Among IsPlaceholder) ∧ names.Unmarked {} ∧
      ∀ s ∈ markList.sheets, s.Headroom .words (s.itemCount names)) ∧
    ∃ last report, markList.fill names {} false 4 .words = some (.done last report) ∧
      report.unresolved = [⟨.cell "" 0 0, "[Mark]"⟩, ⟨.cell "" 2 0, "[Mark]"⟩] ∧
      (∀ use ∈ last.placeholders .words, names.fails use.text = true →
        use.entry ∈ report.unresolved) ∧
      report.unresolved.filter (fun entry => names.fails entry.placeholder) =
        ((last.placeholders .words).filter fun use => names.fails use.text).map
          PlaceholderUse.entry := by
  have among : ∀ s ∈ markList.sheets, s.Among IsPlaceholder := by
    intro s member
    rw [List.mem_singleton.1 member]
    exact Sheet.among_of_allTexts (by cbv)
  have steady : ∀ s ∈ markList.sheets, s.Steady names {} := by
    intro s member
    rw [List.mem_singleton.1 member]
    exact Sheet.steady_of_unmerged rfl
  have headroom : ∀ s ∈ markList.sheets, s.Headroom .words (s.itemCount names) := by
    intro s member
    rw [List.mem_singleton.1 member]
    have items : (Sheet.ofTexts [(0, [(0, "[Mark]"), (1, "[Name]")]),
        (1, [(0, "[Mark]"), (1, "End")])]).itemCount names = 2 := by cbv
    rw [items]
    decide
  have filled : ∃ last, markList.fill names {} false 4 .words =
      some (.done last { collectionsExpanded := 1, rowsEmitted := 2, unresolved :=
        [⟨.cell "" 0 0, "[Mark]"⟩, ⟨.cell "" 2 0, "[Mark]"⟩] }) := by
    refine ⟨((markList.fill names {} false 4 .words).map Attempt.target).getD {}, ?_⟩
    cbv
  obtain ⟨last, filled⟩ := filled
  obtain ⟨enough, last', report, ends, listed, placed⟩ :=
    fill_lists_failing names {} markList .words among names_unmarked headroom
  have same := fill_of_le filled (Nat.le_max_right enough 4)
  rw [ends _ (Nat.le_max_left enough 4)] at same
  cases same
  exact ⟨⟨among, names_unmarked, headroom⟩, last, _, filled, rfl, listed, placed steady⟩

/-- A mark to the left of a merged heading. -/
def headedList : Workbook :=
  ⟨[{ Sheet.ofTexts [(0, [(0, "[Mark]"), (1, "[Name]")])] with merged := [⟨0, 0, 1, 2⟩] }]⟩

/-- The mark is pushed down after it was listed. It is listed again, and its first place stays in
the report. -/
theorem failing_is_listed_twice :
    ¬∀ (source : Source) (options : FillOptions) (w last : Workbook) (bound : Nat)
      (report : Report), (∀ s ∈ w.sheets, s.Among IsPlaceholder) → source.Unmarked options →
        w.fill source options false bound .words = some (.done last report) →
          (∀ use ∈ last.placeholders .words, source.fails use.text = true →
            report.unresolved.count use.entry = 1) ∧
          ∀ entry ∈ report.unresolved, source.fails entry.placeholder = true →
            ∃ use ∈ last.placeholders .words, use.entry = entry := by
  intro claim
  have among : ∀ s ∈ headedList.sheets, s.Among IsPlaceholder := by
    intro s member
    rw [List.mem_singleton.1 member]
    exact Sheet.among_of_allTexts (by cbv)
  have filled : ∃ last, headedList.fill names {} false 4 .words =
      some (.done last { collectionsExpanded := 1, rowsEmitted := 2, unresolved :=
        [⟨.cell "" 0 0, "[Mark]"⟩, ⟨.cell "" 2 0, "[Mark]"⟩] }) ∧
      last.placeholders .words = [⟨.collection, "[Mark]", .cell "" 2 0⟩] := by
    refine ⟨((headedList.fill names {} false 4 .words).map Attempt.target).getD {}, ?_, ?_⟩ <;> cbv
  obtain ⟨last, filled, left⟩ := filled
  obtain ⟨-, places⟩ := claim names {} headedList last 4 _ among names_unmarked filled
  obtain ⟨use, member, same⟩ := places ⟨.cell "" 0 0, "[Mark]"⟩ (List.mem_cons_self ..) (by cbv)
  rw [left, List.mem_singleton] at member
  subst member
  cases same

end Stencil.Workbook
