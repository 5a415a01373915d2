import Stencil.Proofs.Sheet.Overflow
import Stencil.Proofs.Sheet.Survey

/-! When filling a workbook ends. The texts of the data may expand again, so it ends if and only if
all texts settle that the walks over its sheets come to. -/

namespace Stencil

variable {source : Source} {options : FillOptions}

namespace Workbook

theorem fillSheets_ends {sheets : List Sheet}
    (settled : ∀ s ∈ sheets, s.SettledOnWalk source options) (report : Report) :
    ∃ enough last report', ∀ bound ≥ enough,
      fillSheets source options false bound sheets report = some (.done last report') := by
  induction sheets generalizing report with
  | nil => exact ⟨0, [], report, fun _ _ => rfl⟩
  | cons s rest ih =>
      obtain ⟨here, there⟩ := List.forall_mem_cons.1 settled
      obtain ⟨first, filled, report', fills⟩ := Sheet.fill_ends here report
      obtain ⟨second, others, report'', ends⟩ := ih there report'
      refine ⟨max first second, filled :: others, report'', ?_⟩
      intro bound large
      exact fillSheets_cons (fills bound (by omega)) (ends bound (by omega))

theorem settled_of_fillSheets {bound : Nat} {sheets last : List Sheet} {report report' : Report}
    (ended : fillSheets source options false bound sheets report = some (.done last report')) :
    ∀ s ∈ sheets, s.SettledOnWalk source options := by
  induction sheets generalizing report last with
  | nil => exact List.forall_mem_nil _
  | cons s rest ih =>
      obtain ⟨filled, between, others, first, later, -⟩ := fillSheets_cons_iff.1 ended
      exact List.forall_mem_cons.2 ⟨Sheet.settledOnWalk_of_fill first, ih later⟩

/-- Filling a workbook ends if all texts settle that the walks over its sheets come to, and only
then, as long as there is headroom for the rows that are emitted. On a sheet whose merged regions
are beside the cells that expand these are the texts that it has before. On any sheet it is enough
that they settle with all that they lead to. -/
theorem fill_ends_iff_settled (source : Source) (options : FillOptions) (w : Workbook) :
    ((∀ s ∈ w.sheets, s.SettledOnWalk source options) →
      ∃ enough last report, ∀ counting,
        (∀ s ∈ w.sheets, s.Headroom counting report.rowsEmitted) → ∀ bound ≥ enough,
          w.fill source options false bound counting = some (.done last report)) ∧
    (∀ counting bound last report, (∀ s ∈ w.sheets, s.Headroom counting report.rowsEmitted) →
      w.fill source options false bound counting = some (.done last report) →
        ∀ s ∈ w.sheets, s.SettledOnWalk source options) ∧
    ∀ s : Sheet, (s.SettledOnWalk source options → s.Settled source options) ∧
      (s.Settled source options → s.Aside source options → s.SettledOnWalk source options) ∧
      (s.SettledThroughout source options → s.SettledOnWalk source options) := by
  refine ⟨fun settled => ?_, fun counting bound last report headroom ended => ?_, fun s => ?_⟩
  · obtain ⟨enough, sheets, report, ends⟩ := fillSheets_ends settled {}
    refine ⟨enough, ⟨sheets⟩, report, fun counting headroom bound large => ?_⟩
    rw [fill_counted_iff headroom, fill_eq_done_iff]
    exact ends bound large
  · rw [fill_counted_iff headroom, fill_eq_done_iff] at ended
    exact settled_of_fillSheets ended
  · exact ⟨Sheet.SettledOnWalk.settled, fun settled aside => aside.onWalk settled,
      Sheet.SettledThroughout.onWalk⟩

/-- A list whose first item is a list that never ends. -/
def nested : Source :=
  .ofValue (.mapping [("A", .sequence [.text "[B]", .text "x"]),
    ("B", .sequence [.text "y", .text "[B]"])])

/-- The list above a merged region, and the list beside one. -/
def overMerged : Sheet := { Sheet.ofTexts [(0, [(0, "[A]")])] with merged := [⟨5, 7, 0, 0⟩] }

def besideMerged : Sheet := { Sheet.ofTexts [(0, [(0, "[A]")])] with merged := [⟨0, 1, 1, 2⟩] }

/-- What the first list comes to. -/
def overMergedFilled : Sheet :=
  { Sheet.ofTexts [(0, [(0, "[B]")]), (1, [(0, "x")])] with merged := [⟨5, 7, 0, 0⟩] }

theorem nested_settles : Settles nested {} "[A]" := by
  constructor
  intro later written
  have items : nested.written {} "[A]" = [.text "[B]", .text "x"] := by cbv
  rw [items] at written
  cases List.mem_singleton.1 written
  exact .of_nothing (by cbv)

/-- The walk passes the item that would never end, and nothing pushes it down. -/
theorem overMerged_settled : overMerged.SettledOnWalk nested {} := by
  have states : ∀ row columns t, overMerged.OnWalk nested {} row columns t →
      (row = 0 ∧ columns = [0] ∧ t = overMerged) ∨
        t = overMergedFilled ∧ (columns = [] ∨ row = 1 ∧ columns = [0]) := by
    intro row columns t onWalk
    induction onWalk with
    | start first =>
        have top : overMerged.firstRow? = some 0 := by cbv
        cases top.symm.trans first
        exact .inl ⟨rfl, by cbv, rfl⟩
    | visit onWalk ran before =>
        rcases before with ⟨rfl, columns, rfl⟩ | ⟨rfl, none | ⟨rfl, columns⟩⟩
        · cases columns
          have expands : Sheet.visitCollections nested {} false .endless overMerged 0 0 =
              .done overMergedFilled { expanded := 1, rowsEmitted := 2 } := by cbv
          cases expands.symm.trans ran
          exact .inr ⟨rfl, .inl rfl⟩
        · cases none
        · cases columns
          have plain : Sheet.visitCollections nested {} false .endless overMergedFilled 1 0 =
              .done overMergedFilled {} := by cbv
          cases plain.symm.trans ran
          exact .inr ⟨rfl, .inl rfl⟩
    | @onward row t onWalk before =>
        rcases before with ⟨-, columns, -⟩ | ⟨rfl, -⟩
        · cases columns
        · refine .inr ⟨rfl, ?_⟩
          cases row with
          | zero => exact .inr ⟨rfl, by cbv⟩
          | succ row =>
              have height : overMergedFilled.height = 2 := by cbv
              exact .inl (Sheet.columns_eq_nil (Sheet.absent_of_height_le (by omega)))
  intro row column rest t text onWalk held
  rcases states row _ t onWalk with ⟨rfl, columns, rfl⟩ | ⟨rfl, none | ⟨rfl, columns⟩⟩
  · cases columns
    have template : overMerged.text? 0 0 = some "[A]" := by cbv
    cases template.symm.trans held
    exact nested_settles
  · cases none
  · cases columns
    have item : overMergedFilled.text? 1 0 = some "x" := by cbv
    cases item.symm.trans held
    exact .of_nothing (by cbv)

/-- Both lists are filled, the one by its walk and the other one as no row of it is pushed down. -/
theorem fill_ends_by_merged :
    (∀ s ∈ [overMerged, besideMerged], s.SettledOnWalk nested {} ∧ s.Headroom .words 4) ∧
    (besideMerged.Settled nested {} ∧ besideMerged.Aside nested {}) ∧
    ∃ enough last report, report.rowsEmitted = 4 ∧ ∀ bound ≥ enough,
      (Workbook.mk [overMerged, besideMerged]).fill nested {} false bound .words =
        some (.done last report) := by
  have terminates := fill_ends_iff_settled nested {} ⟨[overMerged, besideMerged]⟩
  have settled : besideMerged.Settled nested {} := by
    intro r c text held
    have only := Sheet.of_allTexts (fun _ _ text => text == "[A]") (by cbv) held
    rw [beq_iff_eq] at only
    exact only ▸ nested_settles
  have aside : besideMerged.Aside nested {} := by
    intro r c text held _ region member
    have only := Sheet.of_allTexts (fun _ c _ => c == 0) (by cbv) held
    rw [beq_iff_eq] at only
    rw [List.mem_singleton.1 member, only]
    exact .inl Nat.one_pos
  have beside := (terminates.2.2 besideMerged).2.1 settled aside
  have headroom : ∀ s ∈ [overMerged, besideMerged], s.Headroom .words 4 := by decide
  have both : ∀ s ∈ [overMerged, besideMerged], s.SettledOnWalk nested {} :=
    List.forall_mem_cons.2 ⟨overMerged_settled, List.forall_mem_singleton.2 beside⟩
  obtain ⟨enough, last, report, ends⟩ := terminates.1 both
  have rows : report.rowsEmitted = 4 := by
    have filled : ((Workbook.mk [overMerged, besideMerged]).fill nested {} false 4).map
        Attempt.result = some (.ok { collectionsExpanded := 2, rowsEmitted := 4 }) := by cbv
    have ended := ends .endless (fun s _ => s.headroom_endless _) _ (Nat.le_max_left enough 4)
    obtain ⟨outcome, ran, result⟩ := Option.map_eq_some_iff.1 filled
    cases (fill_of_le ran (Nat.le_max_right enough 4)).symm.trans ended
    cases result
    rfl
  refine ⟨fun s member => ⟨both s member, headroom s member⟩, ⟨settled, aside⟩, enough, last,
    report, rows, ends .words ?_⟩
  rw [rows]
  exact headroom

/-- A list that holds its own placeholder is expanded again and again, and behind a row in the last
place a walk begins anew. -/
theorem fill_never_ends :
    (¬∃ bound outcome, (Workbook.mk [Sheet.ofTexts [(0, [(0, "[A]")])]]).fill
        (.ofValue (.mapping [("A", .sequence [.text "x", .text "[A]"])])) {} false bound .words =
          some outcome) ∧
      ¬∃ bound outcome, (Workbook.mk [Sheet.ofTexts [(UInt64.size - 1, [(0, "Total")])]]).fill
        (.ofValue .null) {} false bound .words = some outcome := by
  constructor
  · rintro ⟨bound, outcome, ended⟩
    have ends : (Sheet.ofTexts [(0, [(0, "[A]")])]).EndsIn "[A]" 0 0 :=
      { rows := fun r => by
          cases r with
          | zero => exact iff_of_true rfl (Nat.le_refl 0)
          | succ r => exact iff_of_false (fun present => nomatch present) (Nat.not_succ_le_zero r)
        unmerged := rfl
        last := rfl }
    have first : firstCollection? "[A]" =
        some { collection := "A", property := none, start := 0, stop := 3 } := by cbv
    have never := ends.fill_eq_none
      (.ofValue (.mapping [("A", .sequence [.text "x", .text "[A]"])])) {} first (by cbv) (by cbv)
      bound {}
    rw [fill, fillSheets, never] at ended
    cases ended
  · rintro ⟨bound, outcome, ended⟩
    have plain : (Sheet.ofTexts [(UInt64.size - 1, [(0, "Total")])]).Plain := by
      intro row column text held
      have only :=
        Sheet.of_allTexts (fun _ _ text => !hasPlaceholder .collection text) (by cbv) held
      simpa using only
    have never := plain.fill_eq_none (by cbv) (.ofValue .null) {} bound {}
    rw [fill, fillSheets, never] at ended
    cases ended

end Workbook

end Stencil
