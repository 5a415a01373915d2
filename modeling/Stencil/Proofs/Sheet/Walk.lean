import Stencil.Fill.Workbook
import Stencil.Proofs.Sheet.Cells

/-! Rules for walks: what the visits of a row preserve holds at its end, what the rows preserve
holds where a walk ends, and a walk ends if a measure falls with every row. The bound of a walk does
not show in what it comes to. -/

namespace Stencil

namespace Sheet

/-- Visiting a row leads from one sheet to another, whatever was reported before. -/
def RowVisit (visit : Visit) (row : Nat) (columns : List Nat) (s next : Sheet) : Prop :=
  ∀ report, ∃ report', visitColumns visit row columns s report = .done next report'

/-- A walk that is in a row, with some columns of it left, has a cell still before it. -/
def Ahead (row : Nat) (columns : List Nat) (r c : Nat) : Prop := row < r ∨ r = row ∧ c ∈ columns

namespace Ahead

variable {s : Sheet} {row column r c : Nat} {columns : List Nat} {cell : Cell}

/-- At a row that nothing is above all cells are ahead. -/
theorem start (above : ∀ r, s.hasRow r = true → row ≤ r) (held : s.cell? r c = some cell) :
    Ahead row (s.columns row) r c := by
  rcases Nat.lt_or_eq_of_le (above r (hasRow_of_cell? held)) with below | rfl
  · exact .inl below
  · exact .inr ⟨rfl, mem_columns held⟩

theorem next (ahead : Ahead row [] r c) (held : s.cell? r c = some cell) :
    Ahead (row + 1) (s.columns (row + 1)) r c := by
  rcases ahead with below | ⟨-, none⟩
  · rcases Nat.lt_or_eq_of_le (Nat.succ_le_of_lt below) with later | rfl
    · exact .inl later
    · exact .inr ⟨rfl, mem_columns held⟩
  · cases none

theorem here_or (ahead : Ahead row (column :: columns) r c) :
    (r = row ∧ c = column) ∨ Ahead row columns r c := by
  rcases ahead with below | ⟨same, inRow⟩
  · exact .inr (.inl below)
  · exact (List.mem_cons.1 inRow).imp (fun here => ⟨same, here⟩) fun later => .inr ⟨same, later⟩

/-- A cell that moves down stays ahead. -/
theorem lower {q : Nat} (ahead : Ahead row columns q c) (low : q ≤ r) : Ahead row columns r c := by
  rcases ahead with below | ⟨rfl, inRow⟩
  · exact .inl (Nat.lt_of_lt_of_le below low)
  · exact (Nat.lt_or_eq_of_le low).imp_right fun same => ⟨same.symm, inRow⟩

theorem lt_height (ahead : Ahead row columns r c) (held : s.cell? r c = some cell) :
    row < s.height := by
  have high := Sheet.lt_height (hasRow_of_cell? held)
  rcases ahead with below | ⟨same, -⟩ <;> omega

end Ahead

/-- The invariant of a row speaks of the columns that are still to be visited. -/
theorem rowVisit_of_step {visit : Visit} {row : Nat} (Holds : List Nat → Sheet → Prop)
    (step : ∀ column rest s, Holds (column :: rest) s →
      ∃ next outcome, visit s row column = .done next outcome ∧ Holds rest next)
    (columns : List Nat) {s : Sheet} (start : Holds columns s) :
    ∃ next, RowVisit visit row columns s next ∧ Holds [] next := by
  induction columns generalizing s with
  | nil => exact ⟨s, fun report => ⟨report, rfl⟩, start⟩
  | cons column rest ih =>
      obtain ⟨middle, outcome, visited, kept⟩ := step column rest s start
      obtain ⟨next, visits, holds⟩ := ih kept
      refine ⟨next, fun report => ?_, holds⟩
      rw [visitColumns, visited, Attempt.andThen_done]
      exact visits _

/-- An invariant of a row may also speak of what was reported. -/
theorem visitColumns_of_step {visit : Visit} {row : Nat} (Holds : List Nat → Sheet → Report → Prop)
    (step : ∀ column rest s report, Holds (column :: rest) s report →
      ∃ next outcome, visit s row column = .done next outcome ∧
        Holds rest next (report.absorb (.cell next.name row column) outcome))
    (columns : List Nat) {s : Sheet} {report : Report} (start : Holds columns s report) :
    ∃ next report', visitColumns visit row columns s report = .done next report' ∧
      Holds [] next report' := by
  induction columns generalizing s report with
  | nil => exact ⟨s, report, rfl, start⟩
  | cons column rest ih =>
      obtain ⟨middle, outcome, visited, kept⟩ := step column rest s report start
      rw [visitColumns, visited, Attempt.andThen_done]
      exact ih kept

/-- Where no visit fails, no row fails. -/
theorem visitColumns_done {visit : Visit}
    (done : ∀ s row column, ∃ next outcome, visit s row column = .done next outcome) (row : Nat)
    (columns : List Nat) (s : Sheet) (report : Report) :
    ∃ last report', visitColumns visit row columns s report = .done last report' := by
  induction columns generalizing s report with
  | nil => exact ⟨s, report, rfl⟩
  | cons column rest ih =>
      obtain ⟨next, outcome, ran⟩ := done s row column
      rw [visitColumns, ran, Attempt.andThen_done]
      exact ih ..

theorem walkFrom_of_height_le {visit : Visit} {cancelled : Bool} {bound row : Nat} {s : Sheet}
    {report : Report} {c : Counting} (low : s.height ≤ row) :
    walkFrom visit cancelled bound row s report c = some (.done s report) := by
  have past : ¬(s.lastRow?.any fun last => row ≤ last) = true := by
    rw [← lt_height_iff]
    omega
  cases bound <;> rw [walkFrom, if_neg past]

theorem walkFrom_zero {visit : Visit} {row : Nat} {s : Sheet} {report : Report} {c : Counting}
    (high : row < s.height) : walkFrom visit false 0 row s report c = none := by
  rw [lt_height_iff] at high
  rw [walkFrom, if_pos high, if_neg Bool.false_ne_true]

theorem walkFrom_succ_wrap {visit : Visit} {bound row : Nat} {s next : Sheet}
    {report report' : Report} {c : Counting} (high : row < s.height)
    (visits : visitColumns visit row (s.columns row c) s report = .done next report') :
    walkFrom visit false (bound + 1) row s report c =
      walkFrom visit false bound (c.wrap (row + 1)) next report' c := by
  rw [lt_height_iff] at high
  rw [walkFrom, if_pos high, if_neg Bool.false_ne_true, visits, Attempt.done]

theorem walkFrom_succ {visit : Visit} {bound row : Nat} {s next : Sheet}
    {report report' : Report} (high : row < s.height)
    (visits : visitColumns visit row (s.columns row) s report = .done next report') :
    walkFrom visit false (bound + 1) row s report =
      walkFrom visit false bound (row + 1) next report' :=
  walkFrom_succ_wrap high visits

variable {visit : Visit}

/-- What is passed on from row to row, along with the report, holds where a walk has ended. -/
theorem walkFrom_reports {c : Counting} (Holds : Nat → Sheet → Report → Prop)
    (step : ∀ row s report, row < s.height → Holds row s report →
      ∃ next report', visitColumns visit row (s.columns row c) s report = .done next report' ∧
        Holds (c.wrap (row + 1)) next report')
    {bound row : Nat} {s : Sheet} {report : Report} {outcome : Attempt Sheet Report}
    (start : Holds row s report)
    (ended : walkFrom visit false bound row s report c = some outcome) :
    ∃ last report' behind, outcome = .done last report' ∧ last.height ≤ behind ∧
      Holds behind last report' := by
  induction bound generalizing row s report with
  | zero =>
      rcases Nat.lt_or_ge row s.height with high | low
      · rw [walkFrom_zero high] at ended
        cases ended
      · rw [walkFrom_of_height_le low] at ended
        cases ended
        exact ⟨s, report, row, rfl, low, start⟩
  | succ bound ih =>
      rcases Nat.lt_or_ge row s.height with high | low
      · obtain ⟨next, report', visited, kept⟩ := step row s report high start
        rw [walkFrom_succ_wrap high visited] at ended
        exact ih kept ended
      · rw [walkFrom_of_height_le low] at ended
        cases ended
        exact ⟨s, report, row, rfl, low, start⟩

/-- What every visit preserves holds where a walk has ended. -/
theorem walk_holds {c : Counting} (Holds : Sheet → Report → Prop)
    (step : ∀ s row column report, Holds s report →
      ∃ next outcome, visit s row column = .done next outcome ∧
        Holds next (report.absorb (.cell next.name row column) outcome))
    {bound : Nat} {s : Sheet} {report : Report} {outcome : Attempt Sheet Report}
    (start : Holds s report) (ended : s.walk visit false bound report c = some outcome) :
    ∃ last report', outcome = .done last report' ∧ Holds last report' := by
  unfold walk at ended
  split at ended
  · cases ended
    exact ⟨s, report, rfl, start⟩
  · have rows : ∀ row t now, row < t.height → Holds t now →
        ∃ next now', visitColumns visit row (t.columns row c) t now = .done next now' ∧
          Holds next now' :=
      fun row t now _ before => visitColumns_of_step (fun _ => Holds)
        (fun column _ u now' => step u row column now') _ before
    obtain ⟨last, report', -, done, -, holds⟩ :=
      walkFrom_reports (fun _ => Holds) rows start ended
    exact ⟨last, report', done, holds⟩

/-- The invariant of a whole walk speaks of the row, of the columns of it that are still to be
visited, and of what was reported. It starts at a row that nothing is above. -/
theorem walk_reports (Holds : Nat → List Nat → Sheet → Report → Prop)
    (visits : ∀ row column rest s report, Holds row (column :: rest) s report →
      ∃ next outcome, visit s row column = .done next outcome ∧
        Holds row rest next (report.absorb (.cell next.name row column) outcome))
    (rows : ∀ row s report, Holds row [] s report → Holds (row + 1) (s.columns (row + 1)) s report)
    {bound : Nat} {s : Sheet} {report : Report} {outcome : Attempt Sheet Report}
    (start : ∀ row, (∀ r, s.hasRow r = true → row ≤ r) → Holds row (s.columns row) s report)
    (ended : s.walk visit false bound report = some outcome) :
    ∃ last report' behind, outcome = .done last report' ∧ last.height ≤ behind ∧
      Holds behind (last.columns behind) last report' := by
  unfold walk at ended
  cases first : s.firstRow? with
  | none =>
      have empty : ∀ r, s.hasRow r ≠ true := by
        intro r present
        obtain ⟨row, found, -⟩ := exists_firstRow present
        cases first.symm.trans found
      rw [first] at ended
      cases ended
      refine ⟨s, report, s.height, rfl, Nat.le_refl _, ?_⟩
      exact start s.height fun r present => absurd present (empty r)
  | some row =>
      rw [first] at ended
      refine walkFrom_reports (fun row s report => Holds row (s.columns row) s report) ?_
        (start row ?_) ended
      · intro row s report _ before
        obtain ⟨next, report', visited, kept⟩ :=
          visitColumns_of_step (Holds row) (visits row) (s.columns row) before
        exact ⟨next, report', visited, rows row next report' kept⟩
      · intro r present
        exact ((Sparse.firstIndex?_eq_some_iff ..).1 first).2 present

variable (Holds : Nat → Sheet → Prop)

/-- A walk ends if every row lowers a load that cannot fall forever, or keeps it and adds no row
below the last. -/
theorem walkFrom_ends {Load : Type} {less : Load → Load → Prop} (load : Nat → Sheet → Load)
    (step : ∀ row s, row < s.height → Holds row s →
      ∃ next, RowVisit visit row (s.columns row) s next ∧ Holds (row + 1) next ∧
        (less (load (row + 1) next) (load row s) ∨
          load (row + 1) next = load row s ∧ next.height ≤ s.height))
    {row : Nat} {s : Sheet} (falls : Acc less (load row s)) (report : Report)
    (start : Holds row s) :
    ∃ enough last report' behind, last.height ≤ behind ∧ Holds behind last ∧
      ∀ bound ≥ enough, walkFrom visit false bound row s report = some (.done last report') := by
  generalize same : load row s = heavy at falls
  induction falls generalizing row s report with
  | intro heavy _ lighter =>
      -- while the load stays the same the rows that are left get fewer
      generalize left : s.height - row = rows
      induction rows using Nat.strongRecOn generalizing row s report with
      | ind rows fewer =>
          rcases Nat.lt_or_ge row s.height with high | low
          · obtain ⟨next, visits, kept, falls⟩ := step row s high start
            obtain ⟨report', visited⟩ := visits report
            have later : ∃ enough last report'' behind, last.height ≤ behind ∧
                Holds behind last ∧ ∀ bound ≥ enough,
                  walkFrom visit false bound (row + 1) next report' =
                    some (.done last report'') := by
              rcases falls with less | ⟨equal, noHigher⟩
              · exact lighter _ (same ▸ less) report' kept rfl
              · exact fewer _ (by omega) report' kept (equal.trans same) rfl
            obtain ⟨enough, last, report'', behind, past, holds, ends⟩ := later
            refine ⟨enough + 1, last, report'', behind, past, holds, ?_⟩
            intro bound large
            obtain ⟨less, rfl⟩ : ∃ less, bound = less + 1 := ⟨bound - 1, by omega⟩
            rw [walkFrom_succ high visited]
            exact ends less (by omega)
          · exact ⟨0, s, report, row, low, start, fun bound _ => walkFrom_of_height_le low⟩

/-- A walk does not end while every row leaves something to do below it. -/
theorem walkFrom_eq_none {c : Counting}
    (step : ∀ row s, Holds row s → row < s.height ∧
      ∃ next, RowVisit visit row (s.columns row c) s next ∧ Holds (c.wrap (row + 1)) next)
    (bound : Nat) {row : Nat} {s : Sheet} {report : Report} (start : Holds row s) :
    walkFrom visit false bound row s report c = none := by
  induction bound generalizing row s report with
  | zero => exact walkFrom_zero (step row s start).1
  | succ bound ih =>
      obtain ⟨high, next, visits, kept⟩ := step row s start
      obtain ⟨report', visited⟩ := visits report
      rw [walkFrom_succ_wrap high visited]
      exact ih kept

/-! ### Bounds -/

/-- A walk that ends does the same within any larger bound. -/
theorem walkFrom_of_le {cancelled : Bool} {bound more row : Nat} {s : Sheet} {report : Report}
    {outcome : Attempt Sheet Report} {c : Counting}
    (ended : walkFrom visit cancelled bound row s report c = some outcome) (le : bound ≤ more) :
    walkFrom visit cancelled more row s report c = some outcome := by
  induction bound generalizing more row s report with
  | zero =>
      rw [walkFrom] at ended
      by_cases high : (s.lastRow?.any fun last => row ≤ last) = true
      · rw [if_pos high] at ended
        by_cases stopped : cancelled = true
        · rw [if_pos stopped] at ended
          cases more <;> rw [walkFrom, if_pos high, if_pos stopped, ended]
        · rw [if_neg stopped] at ended
          cases ended
      · rw [if_neg high] at ended
        cases more <;> rw [walkFrom, if_neg high, ended]
  | succ bound ih =>
      obtain ⟨more, rfl⟩ : ∃ less, more = less + 1 := ⟨more - 1, by omega⟩
      rw [walkFrom] at ended ⊢
      split at ended
      · rename_i high
        rw [if_pos high]
        split at ended
        · rename_i stopped
          rw [if_pos stopped, ended]
        · rename_i active
          rw [if_neg active]
          split at ended
          · exact ended
          · exact ih ended (Nat.le_of_succ_le_succ le)
      · rename_i low
        rw [if_neg low, ended]

theorem walk_of_le {cancelled : Bool} {bound more : Nat} {s : Sheet} {report : Report}
    {outcome : Attempt Sheet Report} {c : Counting}
    (ended : s.walk visit cancelled bound report c = some outcome) (le : bound ≤ more) :
    s.walk visit cancelled more report c = some outcome := by
  unfold walk at ended ⊢
  split at ended
  · exact ended
  · exact walkFrom_of_le ended le

/-- A fill that is done has done its two walks. -/
theorem fill_eq_done_iff {source : Source} {options : FillOptions} {bound : Nat}
    {s last : Sheet} {report report' : Report} {c : Counting} :
    s.fill source options false bound report c = some (.done last report') ↔
      ∃ middle between,
        s.walk (visitCollections source options false c) false bound report c =
          some (.done middle between) ∧
        middle.walk (visitScalars source options) false bound between c =
          some (.done last report') := by
  constructor
  · intro filled
    unfold fill at filled
    split at filled
    · cases filled
    · cases filled
    · rename_i middle between collections
      exact ⟨middle, between, collections, filled⟩
  · rintro ⟨middle, between, collections, scalars⟩
    rw [fill, collections]
    exact scalars

theorem fill_of_le {source : Source} {options : FillOptions} {cancelled : Bool} {bound more : Nat}
    {s : Sheet} {report : Report} {outcome : Attempt Sheet Report} {c : Counting}
    (ended : s.fill source options cancelled bound report c = some outcome) (le : bound ≤ more) :
    s.fill source options cancelled more report c = some outcome := by
  unfold fill at ended ⊢
  cases first :
    s.walk (visitCollections source options cancelled c) cancelled bound report c with
  | none =>
      rw [first] at ended
      cases ended
  | some middle =>
      rw [first] at ended
      rw [walk_of_le first le]
      split at ended
      · cases ended
      · exact ended
      · exact walk_of_le ended le

end Sheet

namespace Workbook

variable {source : Source} {options : FillOptions} {cancelled : Bool} {bound more : Nat}
  {c : Counting}

theorem fillSheets_cons {s filled : Sheet} {rest others : List Sheet}
    {report between last : Report}
    (first : s.fill source options cancelled bound report c = some (.done filled between))
    (later :
      fillSheets source options cancelled bound rest between c = some (.done others last)) :
    fillSheets source options cancelled bound (s :: rest) report c =
      some (.done (filled :: others) last) := by
  rw [fillSheets, first]
  dsimp only [Attempt.done] at later ⊢
  rw [later]
  rfl

theorem fillSheets_of_le {sheets : List Sheet} {report : Report}
    {outcome : Attempt (List Sheet) Report}
    (ended : fillSheets source options cancelled bound sheets report c = some outcome)
    (le : bound ≤ more) :
    fillSheets source options cancelled more sheets report c = some outcome := by
  induction sheets generalizing report outcome with
  | nil => exact ended
  | cons s rest ih =>
      rw [fillSheets] at ended ⊢
      cases first : s.fill source options cancelled bound report c with
      | none =>
          rw [first] at ended
          cases ended
      | some filled =>
          rw [first] at ended
          rw [Sheet.fill_of_le first le]
          split at ended
          · cases ended
          · exact ended
          · obtain ⟨others, later, same⟩ := Option.map_eq_some_iff.1 ended
            rw [ih later, Option.map_some, same]

/-- A fill that ends does the same within any larger bound. -/
theorem fill_of_le {w : Workbook} {outcome : Attempt Workbook Report}
    (ended : w.fill source options cancelled bound c = some outcome) (le : bound ≤ more) :
    w.fill source options cancelled more c = some outcome := by
  obtain ⟨filled, ran, same⟩ := Option.map_eq_some_iff.1 ended
  rw [fill, fillSheets_of_le ran le, Option.map_some, same]

end Workbook

end Stencil
