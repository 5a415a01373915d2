import Stencil.Proofs.Sheet.Whole

/-! The placeholders for which the data has no sequence. The collection pass lists each of them when
it comes to its cell, and the cell stays as it is. A cell that the pass has left can still be pushed
down with its row, from a merged cell to the right of it. Then it is listed a second time. -/

namespace Stencil

/-- Whether a text asks for a sequence that the data does not have. -/
def Source.fails (source : Source) (text : String) : Bool :=
  hasPlaceholder .collection text && (source.asked? text).isNone

namespace Source

variable {source : Source} {options : FillOptions} {text : String}

theorem fails_of_absent {use : CollectionUse} (first : firstCollection? text = some use)
    (absent : source.items? use.collection = none) : source.fails text = true := by
  rw [fails, hasPlaceholder_collection, first, asked?_of_first first, absent]
  rfl

theorem fails_of_none (none : firstCollection? text = none) : source.fails text = false := by
  rw [fails, hasPlaceholder_collection, none]
  rfl

theorem fails_of_items {use : CollectionUse} {items : List Value}
    (first : firstCollection? text = some use)
    (found : source.items? use.collection = some items) : source.fails text = false := by
  rw [fails, asked?_of_first first, found]
  exact Bool.and_false _

theorem ne_empty_of_fails (fails : source.fails text = true) : text ≠ "" := by
  rintro rfl
  have unmarked : Stencil.Unmarked "" := fun _ member => by cases member
  rw [fails_of_none unmarked.firstCollection?] at fails
  cases fails

end Source

/-- No placeholder that fails is to the left of a merged cell that expands. -/
def Sheet.Steady (source : Source) (options : FillOptions) (s : Sheet) : Prop :=
  ∀ row left right failing text, s.text? row left = some failing →
    source.fails failing = true → left < right → s.isMerged row right = true →
      s.text? row right = some text → source.written options text = []

theorem Sheet.steady_of_unmerged {source : Source} {options : FillOptions} {s : Sheet}
    (unmerged : s.merged = []) : s.Steady source options := by
  intro row left right failing text _ _ _ merged
  rw [isMerged, unmerged] at merged
  cases merged

variable {given : String → Prop} {source : Source} {options : FillOptions} {s t u : Sheet}
  {row column : Nat} {columns rest : List Nat} {old report : Report} {own : List CellText}
  {outcome : Outcome}

namespace Expanded

/-- A failing text was there before. -/
theorem failing_origin (x : Expanded source options t row column)
    (fresh : ∀ later, Writes source options x.template later → Unmarked later) {r c : Nat}
    {text : String} (held : x.after.text? r c = some text) (fails : source.fails text = true) :
    ∃ q, r = x.rowOf q ∧ ¬(q = row ∧ c = column) ∧ t.text? q c = some text := by
  rcases x.text_origin held with ⟨i, -, -, written⟩ | before
  · have unmarked := fresh text (x.writes written)
    rw [Source.fails_of_none unmarked.firstCollection?] at fails
    cases fails
  · exact before

theorem steady (x : Expanded source options t row column)
    (fresh : ∀ later, Writes source options x.template later → Unmarked later)
    (steady : t.Steady source options) : x.after.Steady source options := by
  intro r left right failing text held fails less merged there
  obtain ⟨q, rfl, -, before⟩ := x.failing_origin fresh held fails
  rw [x.isMerged_after] at merged
  rcases x.text_origin there with ⟨i, -, -, written⟩ | ⟨q', same, -, beside⟩
  · exact Source.written_of_none (fresh text (x.writes written)).firstCollection?
  · rw [← x.strictMono_rowOf.injective same] at beside
    exact steady q left right failing text before fails less merged beside

/-- A failing text that the walk has passed stays in its place. -/
theorem stands (x : Expanded source options t row column) (steady : t.Steady source options)
    {r c : Nat} {text : String} (held : t.text? r c = some text)
    (fails : source.fails text = true) (passed : r < row ∨ r = row ∧ c < column) :
    x.after.text? r c = some text := by
  have kept := x.text_kept held (Source.ne_empty_of_fails fails) (by omega)
  rcases passed with above | ⟨rfl, left⟩
  · rwa [Expanded.rowOf, Sparse.moved_of_lt (by omega)] at kept
  · have used : x.reach ≠ 0 := by
      intro pushed
      have nothing := steady r c column text x.template held fails left
        (x.isMerged_of_pushed pushed) x.holds
      rw [x.written_eq, values, List.map_eq_nil_iff] at nothing
      exact x.nonempty nothing
    rwa [Expanded.rowOf, Sparse.moved_of_lt (by omega)] at kept

end Expanded

/-! ### What is listed -/

/-- How a report lists a text of a sheet. -/
def CellText.entry (place : CellText) (sheet : String) : UnresolvedPlaceholder :=
  ⟨.cell sheet place.row place.column, place.text⟩

/-- Among what was reported since `old` these are the placeholders that fail. -/
def Source.Reported (source : Source) (sheet : String) (old report : Report)
    (own : List CellText) : Prop :=
  ∃ more, report.unresolved = old.unresolved ++ more ∧
    more.filter (fun entry => source.fails entry.placeholder) = own.map fun place => place.entry sheet

namespace Source.Reported

variable {sheet : String}

theorem refl (source : Source) (sheet : String) (old : Report) :
    source.Reported sheet old old [] :=
  ⟨[], (List.append_nil _).symm, rfl⟩

/-- What does not fail makes no difference. -/
theorem absorb_other (reported : source.Reported sheet old report own)
    (others : ∀ text ∈ outcome.unresolved, source.fails text = false) (location : Location) :
    source.Reported sheet old (report.absorb location outcome) own := by
  obtain ⟨more, grown, listed⟩ := reported
  refine ⟨more ++ outcome.unresolved.map fun text => ⟨location, text⟩, ?_, ?_⟩
  · rw [Report.absorb, grown, List.append_assoc]
  · have none : (outcome.unresolved.map fun text => (⟨location, text⟩ : UnresolvedPlaceholder)).filter
        (fun entry => source.fails entry.placeholder) = [] := by
      rw [List.filter_eq_nil_iff]
      intro entry member
      obtain ⟨text, inside, rfl⟩ := List.mem_map.1 member
      rw [others text inside]
      exact Bool.false_ne_true
    rw [List.filter_append, listed, none, List.append_nil]

theorem absorb_failing (reported : source.Reported sheet old report own) {text : String}
    (fails : source.fails text = true) (row column : Nat) :
    source.Reported sheet old (report.absorb (.cell sheet row column) { unresolved := [text] })
      (own ++ [⟨row, column, text⟩]) := by
  obtain ⟨more, grown, listed⟩ := reported
  refine ⟨more ++ [⟨.cell sheet row column, text⟩], ?_, ?_⟩
  · rw [Report.absorb, grown, List.append_assoc]
    rfl
  · simp only [List.filter_append, listed, List.filter_cons, fails, if_true, List.filter_nil,
      List.map_append, List.map_cons, List.map_nil, CellText.entry]

end Source.Reported

/-- What was listed stands where it was listed, in the order of the walk. -/
structure Standing (source : Source) (options : FillOptions) (row : Nat) (columns : List Nat)
    (t : Sheet) (own : List CellText) : Prop where
  steady : t.Steady source options
  stands : ∀ place ∈ own, t.text? place.row place.column = some place.text ∧
    source.fails place.text = true
  passed : ∀ place ∈ own, place.row < row ∨ place.row = row ∧ ∀ c ∈ columns, place.column < c
  ordered : own.Pairwise CellText.Before

/-- During the walk a text that fails is ahead or listed. -/
structure Listed (given : String → Prop) (source : Source) (options : FillOptions) (s : Sheet)
    (old : Report) (row : Nat) (columns : List Nat) (t : Sheet) (report : Report)
    (own : List CellText) : Prop extends Swept source options row columns t where
  name : t.name = s.name
  ascending : columns.Pairwise (· < ·)
  among : t.Among given
  reported : source.Reported s.name old report own
  found : ∀ place : CellText, t.text? place.row place.column = some place.text →
    source.fails place.text = true → Sheet.Ahead row columns place.row place.column ∨ place ∈ own
  standing : s.Steady source options → Standing source options row columns t own

namespace Standing

theorem pass (standing : Standing source options row (column :: rest) t own) :
    Standing source options row rest t own where
  steady := standing.steady
  stands := standing.stands
  passed place member := (standing.passed place member).imp_right fun ⟨same, left⟩ =>
    ⟨same, fun c inside => left c (List.mem_cons_of_mem _ inside)⟩
  ordered := standing.ordered

theorem before (standing : Standing source options row (column :: rest) t own)
    {place : CellText} (member : place ∈ own) :
    place.row < row ∨ place.row = row ∧ place.column < column :=
  (standing.passed place member).imp_right fun ⟨same, left⟩ =>
    ⟨same, left column (List.mem_cons_self ..)⟩

theorem list (standing : Standing source options row (column :: rest) t own) {text : String}
    (ascending : (column :: rest).Pairwise (· < ·)) (held : t.text? row column = some text)
    (fails : source.fails text = true) :
    Standing source options row rest t (own ++ [⟨row, column, text⟩]) where
  steady := standing.steady
  stands place member := by
    rcases List.mem_append.1 member with earlier | here
    · exact standing.stands place earlier
    · rw [List.mem_singleton.1 here]
      exact ⟨held, fails⟩
  passed place member := by
    rcases List.mem_append.1 member with earlier | here
    · exact standing.pass.passed place earlier
    · rw [List.mem_singleton.1 here]
      exact .inr ⟨rfl, (List.pairwise_cons.1 ascending).1⟩
  ordered := by
    rw [List.pairwise_append]
    refine ⟨standing.ordered, List.pairwise_singleton .., ?_⟩
    intro place earlier new here
    rw [List.mem_singleton.1 here]
    exact standing.before earlier

theorem expanded (standing : Standing source options row (column :: rest) t own)
    (x : Expanded source options t row column)
    (fresh : ∀ later, Writes source options x.template later → Unmarked later) :
    Standing source options row rest x.after own where
  steady := x.steady fresh standing.steady
  stands place member := by
    obtain ⟨held, fails⟩ := standing.stands place member
    exact ⟨x.stands standing.steady held fails (standing.before member), fails⟩
  passed := standing.pass.passed
  ordered := standing.ordered

theorem next (standing : Standing source options row [] t own) :
    Standing source options (row + 1) (t.columns (row + 1)) t own where
  steady := standing.steady
  stands := standing.stands
  passed place member := by
    rcases standing.passed place member with above | ⟨same, -⟩
    · exact .inl (Nat.lt_succ_of_lt above)
    · exact .inl (by omega)
  ordered := standing.ordered

end Standing

namespace Listed

theorem start (among : s.Among given) (whole : ∀ text, given text → IsPlaceholder text)
    (data : source.Unmarked options) (above : ∀ r, s.hasRow r = true → row ≤ r) (report : Report) :
    Listed given source options s report row (s.columns row) s report [] where
  toSwept := .start ((among.mono whole).shallow data) above
  name := rfl
  ascending := Sheet.columns_ascending s row
  among := among
  reported := .refl ..
  found place held _ := by
    obtain ⟨cell, present, -⟩ := (Sheet.text?_eq_some_iff ..).1 held
    exact .inl (.start above present)
  standing steady :=
    { steady
      stands := fun place member => by cases member
      passed := fun place member => by cases member
      ordered := .nil }

theorem next (listed : Listed given source options s old row [] t report own) :
    Listed given source options s old (row + 1) (t.columns (row + 1)) t report own where
  toSwept := listed.toSwept.next
  name := listed.name
  ascending := Sheet.columns_ascending t (row + 1)
  among := listed.among
  reported := listed.reported
  found place held fails := by
    obtain ⟨cell, present, -⟩ := (Sheet.text?_eq_some_iff ..).1 held
    exact (listed.found place held fails).imp_left fun ahead => ahead.next present
  standing steady := (listed.standing steady).next

/-- A cell that does not fail is passed. -/
theorem pass (listed : Listed given source options s old row (column :: rest) t report own)
    (swept : Swept source options row rest t)
    (unfailing : ∀ text, t.text? row column = some text → source.fails text = false)
    {report' : Report} (reported : source.Reported s.name old report' own) :
    Listed given source options s old row rest t report' own where
  toSwept := swept
  name := listed.name
  ascending := (List.pairwise_cons.1 listed.ascending).2
  among := listed.among
  reported := reported
  found place held fails := by
    apply (listed.found place held fails).imp_left
    intro ahead
    apply ahead.here_or.resolve_left
    rintro ⟨same, here⟩
    rw [same, here] at held
    rw [unfailing _ held] at fails
    cases fails
  standing steady := (listed.standing steady).pass

/-- A cell that fails is listed. -/
theorem list (listed : Listed given source options s old row (column :: rest) t report own)
    (swept : Swept source options row rest t) {text : String}
    (held : t.text? row column = some text) (fails : source.fails text = true)
    {report' : Report} (reported : source.Reported s.name old report'
      (own ++ [⟨row, column, text⟩])) :
    Listed given source options s old row rest t report' (own ++ [⟨row, column, text⟩]) where
  toSwept := swept
  name := listed.name
  ascending := (List.pairwise_cons.1 listed.ascending).2
  among := listed.among
  reported := reported
  found place there failing := by
    rcases listed.found place there failing with ahead | known
    · rcases ahead.here_or with ⟨same, here⟩ | later
      · right
        rw [same, here, held] at there
        cases place
        cases same
        cases here
        cases there
        exact List.mem_append_right _ (List.mem_singleton_self _)
      · exact .inl later
    · exact .inr (List.mem_append_left _ known)
  standing steady := (listed.standing steady).list listed.ascending held fails

theorem expanded (listed : Listed given source options s old row (column :: rest) t report own)
    (whole : ∀ text, given text → IsPlaceholder text) (data : source.Unmarked options)
    (x : Expanded source options t row column)
    {report' : Report} (reported : source.Reported s.name old report' own) :
    Listed given source options s old row rest x.after report' own := by
  have fresh : ∀ later, Writes source options x.template later → Unmarked later :=
    fun _ => data.of_writes ((listed.among row column x.template x.holds).imp_right (whole _))
  refine
    { toSwept := listed.toSwept.expanded x
      name := x.name_after.trans listed.name
      ascending := (List.pairwise_cons.1 listed.ascending).2
      among := x.among data whole listed.among
      reported
      found := ?_
      standing := fun steady => (listed.standing steady).expanded x fresh }
  rintro ⟨r, c, text⟩ held fails
  obtain ⟨q, rfl, other, before⟩ := x.failing_origin fresh held fails
  rcases x.rowOf_eq_or_lt q with still | below
  · rw [still]
    exact (listed.found ⟨q, c, text⟩ before fails).imp_left fun ahead =>
      ahead.here_or.resolve_left other
  · exact .inl (.inl below)

/-- What is reported for a text is the text. -/
theorem sourceText_eq (listed : Listed given source options s old row columns t report own)
    (whole : ∀ text, given text → IsPlaceholder text) {text : String} {use : CollectionUse}
    {r c : Nat} (held : t.text? r c = some text) (first : firstCollection? text = some use) :
    use.sourceText = text := by
  rcases listed.among r c text held with unmarked | good
  · cases unmarked.firstCollection?.symm.trans first
  · obtain ⟨p, formed, rfl⟩ := whole text good
    exact sourceText_of_firstCollection? formed first

theorem step (listed : Listed given source options s old row (column :: rest) t report own)
    (whole : ∀ text, given text → IsPlaceholder text) (data : source.Unmarked options)
    (visit : CollectionVisit source options t row column .endless u outcome) :
    ∃ own', Listed given source options s old row rest u
      (report.absorb (.cell u.name row column) outcome) own' := by
  have swept := listed.toSwept.step visit.visited
  rw [visit.name_eq, listed.name]
  cases visit with
  | plain nothing =>
      refine ⟨own, listed.pass swept ?_ (listed.reported.absorb_other ?_ _)⟩
      · exact fun text held => Source.fails_of_none (nothing text held)
      · exact fun text member => by cases member
  | unresolved template use holds first absent =>
      have fails := Source.fails_of_absent first absent
      rw [listed.sourceText_eq whole holds first]
      exact ⟨_, listed.list swept holds fails (listed.reported.absorb_failing fails row column)⟩
  | empty template use holds first found =>
      refine ⟨own, listed.pass swept ?_ (listed.reported.absorb_other ?_ _)⟩
      · intro text held
        cases holds.symm.trans held
        exact Source.fails_of_items first found
      · exact fun text member => by cases member
  | expanded x =>
      refine ⟨own, listed.expanded whole data x (listed.reported.absorb_other ?_ _)⟩
      intro text member
      have same : text = x.template := by
        rw [← listed.sourceText_eq whole x.holds x.first]
        rw [Expanded.outcome, Sheet.expansionOutcome] at member
        split at member
        · exact List.mem_singleton.1 member
        · cases member
      rw [same]
      exact Source.fails_of_items x.first x.found

/-! Behind the last row -/

theorem mem_own (listed : Listed given source options s old row columns t report own)
    (past : t.height ≤ row) {place : CellText}
    (held : t.text? place.row place.column = some place.text)
    (fails : source.fails place.text = true) : place ∈ own := by
  obtain ⟨cell, present, -⟩ := (Sheet.text?_eq_some_iff ..).1 held
  exact (listed.found place held fails).resolve_left fun ahead =>
    Nat.not_lt.2 past (ahead.lt_height present)

theorem own_eq (listed : Listed given source options s old row columns t report own)
    (past : t.height ≤ row) (steady : s.Steady source options) :
    own = t.texts.filter fun place => source.fails place.text := by
  have standing := listed.standing steady
  apply Sheet.eq_filter_texts source.fails standing.ordered
  intro place
  exact ⟨standing.stands place, fun ⟨held, fails⟩ => listed.mem_own past held fails⟩

end Listed

end Stencil
