import Stencil.Fill.Survey
import Stencil.Proofs.Attempt
import Stencil.Proofs.Sheet.Scalars
import Stencil.Proofs.Sheet.Visit
import Stencil.Proofs.Sheet.Walk

/-! Fills with headroom. While there is room for the rows that a pass emits, it does in machine
words what it does in the counting without an end. -/

namespace Stencil

variable {c : Counting}

namespace Expanded

variable {source : Source} {options : FillOptions} {s : Sheet} {row column : Nat}

/-- An expansion writes into no column that had no cell. -/
theorem exists_cell_in_column (x : Expanded source options s row column) {r k : Nat} {cell : Cell}
    (held : x.after.cell? r k = some cell) : ∃ q old, s.cell? q k = some old := by
  by_cases same : k = column
  · subst same
    obtain ⟨old, there, -⟩ := (Sheet.text?_eq_some_iff ..).1 x.holds
    exact ⟨row, old, there⟩
  · by_cases new : ∀ q, s.hasRow q = true → x.rowOf q ≠ r
    · obtain ⟨i, inside, rfl, fresh⟩ := x.exists_made (Sheet.hasRow_of_cell? held) new
      rw [x.cell?_made inside fresh same] at held
      obtain ⟨old, there, -⟩ := Option.map_eq_some_iff.1 held
      exact ⟨row, old, there⟩
    · push Not at new
      obtain ⟨q, there, rfl⟩ := new
      rw [x.cell?_found there (.inl same)] at held
      exact ⟨q, cell, held⟩

theorem headroom_after (x : Expanded source options s row column) {count : Nat}
    (headroom : s.Headroom c (x.items.length + count)) : x.after.Headroom c count where
  rows q present := by
    obtain ⟨r, there, low⟩ := x.exists_row_above present
    exact (headroom.rows r there).mono (by omega)
  columns r k cell held := by
    obtain ⟨q, old, there⟩ := x.exists_cell_in_column held
    exact headroom.columns q k old there
  regions region member := by
    obtain ⟨before, inside, first, last⟩ := x.exists_region_above member
    obtain ⟨roomFirst, roomLast⟩ := headroom.regions before inside
    exact ⟨roomFirst.mono (by omega), roomLast.mono (by omega)⟩

end Expanded

namespace Sheet

variable {source : Source} {options : FillOptions} {s t : Sheet}

namespace Headroom

theorem mono {count less : Nat} (headroom : s.Headroom c count) (le : less ≤ count) :
    s.Headroom c less where
  rows row present := (headroom.rows row present).mono (by omega)
  columns := headroom.columns
  regions := (headroom.room.mono le).regions

/-- A walk can go on behind every row that it comes to. -/
theorem counts_succ {count row : Nat} (headroom : s.Headroom c count) (high : row < s.height) :
    c.Counts (row + 1) := by
  obtain ⟨last, found, low⟩ := (Option.any_eq_true ..).1 ((lt_height_iff ..).1 high)
  have present : s.hasRow last = true := ((Sparse.lastIndex?_eq_some_iff ..).1 found).1
  rw [decide_eq_true_eq] at low
  exact (headroom.rows last present).mono (by omega)

theorem visited {row column count : Nat} {next : Sheet} {outcome : Outcome}
    (visit : CollectionVisit source options s row column .endless next outcome)
    (headroom : s.Headroom c (outcome.rowsEmitted + count)) : next.Headroom c count := by
  cases visit with
  | plain nothing => exact headroom.mono (Nat.le_add_left ..)
  | unresolved template use holds first absent => exact headroom.mono (Nat.le_add_left ..)
  | empty template use holds first found => exact headroom.mono (Nat.le_add_left ..)
  | expanded x => exact x.headroom_after headroom

theorem refilled {count : Nat} (headroom : s.Headroom c count) (row column : Nat) :
    (s.refilled source options row column).Headroom c count where
  rows r present := headroom.rows r ((hasRow_refilled s row column r).symm.trans present)
  columns r k cell held := by
    by_cases here : r = row ∧ k = column
    · obtain ⟨rfl, rfl⟩ := here
      rw [cell?_refilled_self] at held
      obtain ⟨old, there, -⟩ := Option.map_eq_some_iff.1 held
      exact headroom.columns r k old there
    · rw [cell?_refilled here] at held
      exact headroom.columns r k cell held
  regions region member := by
    rw [merged_refilled] at member
    exact headroom.regions region member

end Headroom

/-! ### Walks -/

/-- One visit does in the counting what another does without an end, as long as there is headroom
for the rows that they emit. -/
def Agrees (c : Counting) (counted visit : Visit) : Prop :=
  ∀ s row column, ∃ next next' outcome,
    counted s row column = .done next outcome ∧ visit s row column = .done next' outcome ∧
      ∀ count, s.Headroom c (outcome.rowsEmitted + count) → next = next' ∧ next'.Headroom c count

theorem rowsEmitted_le_of_visitColumns {visit : Visit} {row : Nat} {columns : List Nat}
    {last : Sheet} {report report' : Report}
    (ran : visitColumns visit row columns s report = .done last report') :
    report.rowsEmitted ≤ report'.rowsEmitted := by
  induction columns generalizing s report with
  | nil =>
      cases ran
      exact Nat.le_refl _
  | cons column rest ih =>
      rw [visitColumns] at ran
      obtain ⟨next, outcome, -, later⟩ := Attempt.done_of_andThen ran
      exact Nat.le_trans (Nat.le_add_right _ outcome.rowsEmitted) (ih later)

theorem rowsEmitted_le_of_walkFrom {visit : Visit} {bound row : Nat} {last : Sheet}
    {report report' : Report}
    (ran : walkFrom visit false bound row s report c = some (.done last report')) :
    report.rowsEmitted ≤ report'.rowsEmitted := by
  induction bound generalizing row s report with
  | zero =>
      rcases Nat.lt_or_ge row s.height with high | low
      · rw [walkFrom_zero high] at ran
        cases ran
      · rw [walkFrom_of_height_le low] at ran
        cases ran
        exact Nat.le_refl _
  | succ bound ih =>
      rcases Nat.lt_or_ge row s.height with high | low
      · rw [walkFrom, if_pos ((lt_height_iff ..).1 high), if_neg Bool.false_ne_true] at ran
        split at ran
        · cases ran
        · rename_i visited
          exact Nat.le_trans (rowsEmitted_le_of_visitColumns visited) (ih ran)
      · rw [walkFrom_of_height_le low] at ran
        cases ran
        exact Nat.le_refl _

namespace Agrees

variable {counted visit : Visit} {row count left : Nat} {columns : List Nat} {last : Sheet}
  {report report' : Report}

theorem counted_done (agrees : Agrees c counted visit) (s : Sheet) (row column : Nat) :
    ∃ next outcome, counted s row column = .done next outcome := by
  obtain ⟨next, -, outcome, ran, -⟩ := agrees s row column
  exact ⟨next, outcome, ran⟩

theorem done (agrees : Agrees c counted visit) (s : Sheet) (row column : Nat) :
    ∃ next outcome, visit s row column = .done next outcome := by
  obtain ⟨-, next, outcome, -, ran, -⟩ := agrees s row column
  exact ⟨next, outcome, ran⟩

/-- A row comes to the same in both countings and leaves the rest of the headroom, or emits more rows
in both than there is headroom for. -/
theorem visitColumns_cases (agrees : Agrees c counted visit) (headroom : s.Headroom c count)
    (row : Nat) (columns : List Nat) (report : Report) :
    (∃ last now more, visitColumns counted row columns s report = .done last now ∧
      visitColumns visit row columns s report = .done last now ∧
      report.rowsEmitted + count = now.rowsEmitted + more ∧ last.Headroom c more) ∨
    ∃ last now last' now', visitColumns counted row columns s report = .done last now ∧
      visitColumns visit row columns s report = .done last' now' ∧
      report.rowsEmitted + count < now.rowsEmitted ∧
      report.rowsEmitted + count < now'.rowsEmitted := by
  induction columns generalizing s report count with
  | nil => exact .inl ⟨s, report, count, rfl, rfl, rfl, headroom⟩
  | cons column rest ih =>
      obtain ⟨next, next', outcome, ran, ran', same⟩ := agrees s row column
      rw [visitColumns, visitColumns, ran, ran', Attempt.andThen_done, Attempt.andThen_done]
      by_cases fits : outcome.rowsEmitted ≤ count
      · obtain ⟨more, rfl⟩ := Nat.exists_eq_add_of_le fits
        obtain ⟨rfl, below⟩ := same more headroom
        have later := ih below (report.absorb (.cell next.name row column) outcome)
        rwa [Report.absorb, Nat.add_assoc] at later
      · obtain ⟨last, now, goes⟩ := visitColumns_done agrees.counted_done row rest next
          (report.absorb (.cell next.name row column) outcome)
        obtain ⟨last', now', goes'⟩ := visitColumns_done agrees.done row rest next'
          (report.absorb (.cell next'.name row column) outcome)
        have most : report.rowsEmitted + outcome.rowsEmitted ≤ now.rowsEmitted :=
          rowsEmitted_le_of_visitColumns goes
        have most' : report.rowsEmitted + outcome.rowsEmitted ≤ now'.rowsEmitted :=
          rowsEmitted_le_of_visitColumns goes'
        exact .inr ⟨last, now, last', now', goes, goes', by omega, by omega⟩

/-- A walk comes to the same in both countings. -/
theorem walkFrom_iff (agrees : Agrees c counted visit) {bound : Nat}
    (headroom : s.Headroom c count)
    (total : report.rowsEmitted + count = report'.rowsEmitted + left) :
    (walkFrom counted false bound row s report c = some (.done last report') ↔
        walkFrom visit false bound row s report = some (.done last report')) ∧
      (walkFrom visit false bound row s report = some (.done last report') →
        last.Headroom c left) := by
  induction bound generalizing row s report count with
  | zero =>
      rcases Nat.lt_or_ge row s.height with high | low
      · rw [walkFrom_zero high, walkFrom_zero high]
        exact ⟨Iff.rfl, fun none => nomatch none⟩
      · rw [walkFrom_of_height_le low, walkFrom_of_height_le low]
        refine ⟨Iff.rfl, ?_⟩
        rintro ⟨⟩
        exact headroom.mono (by omega)
  | succ bound ih =>
      rcases Nat.lt_or_ge row s.height with high | low
      · have columns := columns_counted (headroom.columns row)
        rcases agrees.visitColumns_cases headroom row (s.columns row) report with
          ⟨next, now, more, ran, ran', same, below⟩ |
          ⟨next, now, next', now', ran, ran', exceeds, exceeds'⟩
        · rw [walkFrom_succ_wrap high (columns ▸ ran), headroom.counts_succ high,
            walkFrom_succ high ran']
          exact ih below (same.symm.trans total)
        · rw [walkFrom_succ_wrap high (columns ▸ ran), headroom.counts_succ high,
            walkFrom_succ high ran']
          -- more rows are emitted than can have been reported
          have never : ∀ {visit : Visit} {t : Sheet} {now : Report} {row : Nat} {c : Counting},
              report.rowsEmitted + count < now.rowsEmitted →
                walkFrom visit false bound row t now c ≠ some (.done last report') := by
            intro visit t now row c exceeds ran
            have most := rowsEmitted_le_of_walkFrom ran
            omega
          exact ⟨iff_of_false (never exceeds) (never exceeds'),
            fun ran => absurd ran (never exceeds')⟩
      · rw [walkFrom_of_height_le low, walkFrom_of_height_le low]
        refine ⟨Iff.rfl, ?_⟩
        rintro ⟨⟩
        exact headroom.mono (by omega)

theorem walk_iff (agrees : Agrees c counted visit) (bound : Nat) (last : Sheet)
    (headroom : s.Headroom c count)
    (total : report.rowsEmitted + count = report'.rowsEmitted + left) :
    (s.walk counted false bound report c = some (.done last report') ↔
        s.walk visit false bound report = some (.done last report')) ∧
      (s.walk visit false bound report = some (.done last report') → last.Headroom c left) := by
  unfold walk
  cases s.firstRow? with
  | none =>
      refine ⟨Iff.rfl, ?_⟩
      rintro ⟨⟩
      exact headroom.mono (by omega)
  | some row => exact agrees.walkFrom_iff headroom total

end Agrees

theorem rowsEmitted_le_of_walk {visit : Visit} {bound : Nat} {last : Sheet}
    {report report' : Report}
    (ran : s.walk visit false bound report c = some (.done last report')) :
    report.rowsEmitted ≤ report'.rowsEmitted := by
  unfold walk at ran
  split at ran
  · cases ran
    exact Nat.le_refl _
  · exact rowsEmitted_le_of_walkFrom ran

/-! ### Fills -/

/-- Where filling ends, it ends without an error. -/
theorem fill_done {bound : Nat} {report : Report} {outcome : Attempt Sheet Report} {c : Counting}
    (ended : s.fill source options false bound report c = some outcome) :
    ∃ last report', outcome = .done last report' := by
  unfold fill at ended
  cases collections :
    s.walk (visitCollections source options false c) false bound report c with
  | none =>
      rw [collections] at ended
      cases ended
  | some first =>
      obtain ⟨middle, report', rfl, -⟩ := walk_holds (fun _ _ => True)
        (fun t row column _ _ => by
          obtain ⟨next, ran⟩ := visitCollections_outcome source options t row column c
          exact ⟨next, _, ran, trivial⟩) trivial collections
      rw [collections] at ended
      obtain ⟨last, report'', done, -⟩ := walk_holds (fun _ _ => True)
        (fun t row column _ _ => by
          exact ⟨_, _, visitScalars_eq source options t row column, trivial⟩) trivial ended
      exact ⟨last, report'', done⟩

theorem visitCollections_counted (options : FillOptions) {row column : Nat}
    (room : s.Room c (s.collectionOutcome source row column).rowsEmitted)
    (narrow : s.Narrow c row) :
    visitCollections source options false c s row column =
      visitCollections source options false .endless s row column := by
  unfold visitCollections
  split
  · unfold collectionOutcome at room
    cases holds : s.text? row column with
    | none => simp only [expandAt, holds]
    | some template =>
        cases first : firstCollection? template with
        | none => simp only [expandAt, holds, first]
        | some use =>
            cases found : source.items? use.collection with
            | none => simp only [expandAt, holds, first, found]
            | some items =>
                rw [holds, Option.bind_some, first, Option.elim_some, found] at room
                exact expandAt_counted options holds first found room narrow
  · rfl

theorem visitCollections_agrees (source : Source) (options : FillOptions) (c : Counting) :
    Agrees c (visitCollections source options false c)
      (visitCollections source options false .endless) := by
  intro s row column
  obtain ⟨next, ran⟩ := s.visitCollections_outcome source options row column c
  obtain ⟨next', outcome, ran', visit⟩ := visitCollections_cases source options s row column
  obtain ⟨_, same⟩ := s.visitCollections_outcome source options row column .endless
  cases ran'.symm.trans same
  refine ⟨next, next', _, ran, ran', fun count headroom => ⟨?_, headroom.visited visit⟩⟩
  have counted := visitCollections_counted options
    (headroom.room.mono (Nat.le_add_right _ count)) (headroom.columns row)
  cases ran.symm.trans (counted.trans ran')
  rfl

theorem visitScalars_agrees (source : Source) (options : FillOptions) (c : Counting) :
    Agrees c (visitScalars source options) (visitScalars source options) := by
  intro s row column
  refine ⟨_, _, _, visitScalars_eq .., visitScalars_eq .., fun count headroom => ⟨rfl, ?_⟩⟩
  exact (headroom.mono (Nat.le_add_left ..)).refilled row column

/-- A fill comes to the same in both countings, if there is headroom for the rows that it emits, and
leaves the rest of the headroom. -/
theorem fill_counted_iff {bound count left : Nat} {last : Sheet} {report report' : Report}
    (headroom : s.Headroom c count)
    (total : report.rowsEmitted + count = report'.rowsEmitted + left) :
    (s.fill source options false bound report c = some (.done last report') ↔
        s.fill source options false bound report = some (.done last report')) ∧
      (s.fill source options false bound report = some (.done last report') →
        last.Headroom c left) := by
  have parts : ∀ middle between,
      (s.walk (visitCollections source options false c) false bound report c =
            some (.done middle between) ∧
          middle.walk (visitScalars source options) false bound between c =
            some (.done last report') ↔
        s.walk (visitCollections source options false) false bound report =
            some (.done middle between) ∧
          middle.walk (visitScalars source options) false bound between =
            some (.done last report')) ∧
        (s.walk (visitCollections source options false) false bound report =
            some (.done middle between) →
          middle.walk (visitScalars source options) false bound between =
            some (.done last report') → last.Headroom c left) := by
    intro middle between
    by_cases fits : between.rowsEmitted ≤ report.rowsEmitted + count
    · obtain ⟨more, enough⟩ := Nat.exists_eq_add_of_le fits
      obtain ⟨same, below⟩ :=
        (visitCollections_agrees source options c).walk_iff bound middle headroom enough
      rw [same]
      have scalars := fun collections =>
        (visitScalars_agrees source options c).walk_iff bound last (below collections)
          (enough.symm.trans total)
      exact ⟨and_congr_right fun ran => (scalars ran).1, fun ran => (scalars ran).2⟩
    · have exceeds : ∀ {c : Counting},
          middle.walk (visitScalars source options) false bound between c ≠
            some (.done last report') := by
        intro c ran
        have most := rowsEmitted_le_of_walk ran
        omega
      exact ⟨iff_of_false (fun ran => exceeds ran.2) fun ran => exceeds ran.2,
        fun _ ran => absurd ran exceeds⟩
  rw [fill_eq_done_iff, fill_eq_done_iff]
  constructor
  · exact exists_congr fun middle => exists_congr fun between => (parts middle between).1
  · rintro ⟨middle, between, collections, scalars⟩
    exact (parts middle between).2 collections scalars

theorem rowsEmitted_le_of_fill {bound : Nat} {last : Sheet} {report report' : Report}
    (ran : s.fill source options false bound report c = some (.done last report')) :
    report.rowsEmitted ≤ report'.rowsEmitted := by
  obtain ⟨middle, between, collections, scalars⟩ := fill_eq_done_iff.1 ran
  exact Nat.le_trans (rowsEmitted_le_of_walk collections) (rowsEmitted_le_of_walk scalars)

theorem placeholders_counted (columns : ∀ row, s.Narrow c row) :
    s.placeholders c = s.placeholders := by
  unfold placeholders
  simp only [columns_counted (columns _)]

end Sheet

namespace Workbook

variable {source : Source} {options : FillOptions}

/-- Where filling the sheets ends, filling the first of them is done. -/
theorem first_done_of_fillSheets {bound : Nat} {s : Sheet} {rest : List Sheet} {report : Report}
    {outcome : Attempt (List Sheet) Report}
    (ended : fillSheets source options false bound (s :: rest) report c = some outcome) :
    ∃ filled between later,
      s.fill source options false bound report c = some (.done filled between) ∧
      fillSheets source options false bound rest between c = some later ∧
      outcome = later.within (filled :: ·) := by
  rw [fillSheets] at ended
  cases first : s.fill source options false bound report c with
  | none =>
      rw [first] at ended
      cases ended
  | some middle =>
      obtain ⟨filled, between, rfl⟩ := Sheet.fill_done first
      rw [first] at ended
      obtain ⟨later, ran, rfl⟩ := Option.map_eq_some_iff.1 ended
      exact ⟨filled, between, later, rfl, ran, rfl⟩

theorem fillSheets_done {bound : Nat} {sheets : List Sheet} {report : Report}
    {outcome : Attempt (List Sheet) Report}
    (ended : fillSheets source options false bound sheets report c = some outcome) :
    outcome.Completes := by
  induction sheets generalizing report outcome with
  | nil =>
      cases ended
      exact ⟨[], report, rfl⟩
  | cons s rest ih =>
      obtain ⟨filled, between, later, -, ran, rfl⟩ := first_done_of_fillSheets ended
      exact (ih ran).within _

theorem fill_done {bound : Nat} {w : Workbook} {outcome : Attempt Workbook Report}
    (ended : w.fill source options false bound c = some outcome) : outcome.Completes := by
  obtain ⟨filled, ran, rfl⟩ := Option.map_eq_some_iff.1 ended
  exact (fillSheets_done ran).within _

theorem fillSheets_cons_iff {bound : Nat} {s : Sheet} {rest last : List Sheet}
    {report report' : Report} :
    fillSheets source options false bound (s :: rest) report c = some (.done last report') ↔
      ∃ filled between others,
        s.fill source options false bound report c = some (.done filled between) ∧
        fillSheets source options false bound rest between c = some (.done others report') ∧
        last = filled :: others := by
  constructor
  · intro ended
    obtain ⟨filled, between, later, first, ran, same⟩ := first_done_of_fillSheets ended
    obtain ⟨others, report'', rfl⟩ := fillSheets_done ran
    cases same
    exact ⟨filled, between, others, first, ran, rfl⟩
  · rintro ⟨filled, between, others, first, later, rfl⟩
    exact fillSheets_cons first later

theorem rowsEmitted_le_of_fillSheets {bound : Nat} {sheets last : List Sheet}
    {report report' : Report}
    (ran : fillSheets source options false bound sheets report c = some (.done last report')) :
    report.rowsEmitted ≤ report'.rowsEmitted := by
  induction sheets generalizing report last with
  | nil =>
      cases ran
      exact Nat.le_refl _
  | cons s rest ih =>
      obtain ⟨filled, between, others, first, later, -⟩ := fillSheets_cons_iff.1 ran
      exact Nat.le_trans (Sheet.rowsEmitted_le_of_fill first) (ih later)

theorem fillSheets_counted_iff {bound count : Nat} {sheets last : List Sheet}
    {report report' : Report} (headroom : ∀ s ∈ sheets, s.Headroom c count)
    (total : report'.rowsEmitted ≤ report.rowsEmitted + count) :
    fillSheets source options false bound sheets report c = some (.done last report') ↔
      fillSheets source options false bound sheets report = some (.done last report') := by
  induction sheets generalizing report last with
  | nil => exact Iff.rfl
  | cons s rest ih =>
      obtain ⟨here, there⟩ := List.forall_mem_cons.1 headroom
      rw [fillSheets_cons_iff, fillSheets_cons_iff]
      refine exists_congr fun filled => exists_congr fun between => exists_congr fun others => ?_
      by_cases fits : between.rowsEmitted ≤ report'.rowsEmitted
      · obtain ⟨left, rest⟩ := Nat.exists_eq_add_of_le (Nat.le_trans fits total)
        rw [(Sheet.fill_counted_iff here rest).1]
        apply and_congr_right
        intro first
        have grown := Sheet.rowsEmitted_le_of_fill first
        rw [ih there (by omega)]
      · have exceeds : ∀ {c : Counting},
            fillSheets source options false bound rest between c ≠ some (.done others report') :=
          fun later => fits (rowsEmitted_le_of_fillSheets later)
        exact iff_of_false (fun ran => exceeds ran.2.1) fun ran => exceeds ran.2.1

theorem fill_eq_done_iff {bound : Nat} {w last : Workbook} {report : Report} :
    w.fill source options false bound c = some (.done last report) ↔
      fillSheets source options false bound w.sheets {} c = some (.done last.sheets report) := by
  rw [fill, Option.map_eq_some_iff]
  constructor
  · rintro ⟨⟨sheets, result⟩, ran, same⟩
    cases same
    exact ran
  · exact fun ran => ⟨_, ran, rfl⟩

/-- A fill comes to the same in both countings, if all sheets have headroom for the rows that it
emits. -/
theorem fill_counted_iff {bound : Nat} {w last : Workbook} {report : Report}
    (headroom : ∀ s ∈ w.sheets, s.Headroom c report.rowsEmitted) :
    w.fill source options false bound c = some (.done last report) ↔
      w.fill source options false bound = some (.done last report) := by
  rw [fill_eq_done_iff, fill_eq_done_iff]
  exact fillSheets_counted_iff headroom (Nat.le_add_left ..)

theorem placeholders_counted {w : Workbook} (columns : ∀ s ∈ w.sheets, ∀ row, s.Narrow c row) :
    w.placeholders c = w.placeholders :=
  List.flatMap_congr fun s member => s.placeholders_counted (columns s member)

end Workbook

end Stencil
