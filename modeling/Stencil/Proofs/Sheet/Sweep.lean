import Stencil.Proofs.Sheet.Termination

/-! Texts that expand at most once. On a sheet of such texts the collection pass ends, and behind it
there is nothing left that could expand. -/

namespace Stencil

/-- Nothing that is written for a text writes anything in its turn. -/
def Source.Shallow (source : Source) (options : FillOptions) (text : String) : Prop :=
  ∀ later, Writes source options text later → source.written options later = []

namespace Source.Shallow

variable {source : Source} {options : FillOptions} {text : String}

theorem of_nothing (nothing : source.written options text = []) : source.Shallow options text := by
  intro later writes
  rw [Writes, nothing] at writes
  cases writes

theorem settlesThroughout (shallow : source.Shallow options text) :
    SettlesThroughout source options text := by
  intro last reaches
  cases reaches.cases_head with
  | inl same =>
      subst same
      constructor
      intro later written
      exact .of_nothing (shallow later (List.mem_of_mem_drop written))
  | inr writes =>
      obtain ⟨first, written, onwards⟩ := writes
      have nothing := shallow first written
      cases onwards.cases_head with
      | inl same => exact same ▸ .of_nothing nothing
      | inr more =>
          obtain ⟨second, written, -⟩ := more
          rw [Writes, nothing] at written
          cases written

end Source.Shallow

/-- While a sheet is walked, only what is ahead of the walk can expand. -/
structure Swept (source : Source) (options : FillOptions) (row : Nat) (columns : List Nat)
    (t : Sheet) : Prop where
  shallow : ∀ r c text, t.text? r c = some text → source.Shallow options text
  ahead : ∀ r c text, t.text? r c = some text → source.written options text ≠ [] →
    Sheet.Ahead row columns r c

namespace Swept

variable {source : Source} {options : FillOptions} {row column : Nat} {columns rest : List Nat}
  {s t : Sheet}

theorem start (shallow : ∀ r c text, s.text? r c = some text → source.Shallow options text)
    (above : ∀ r, s.hasRow r = true → row ≤ r) : Swept source options row (s.columns row) s where
  shallow := shallow
  ahead r c text held _ := by
    obtain ⟨cell, present, -⟩ := (Sheet.text?_eq_some_iff ..).1 held
    exact .start above present

theorem next (swept : Swept source options row [] t) :
    Swept source options (row + 1) (t.columns (row + 1)) t where
  shallow := swept.shallow
  ahead r c text held written := by
    obtain ⟨cell, present, -⟩ := (Sheet.text?_eq_some_iff ..).1 held
    exact (swept.ahead r c text held written).next present

theorem expanded (swept : Swept source options row (column :: rest) s)
    (x : Expanded source options s row column) : Swept source options row rest x.after where
  shallow r c text held := by
    rcases x.text_origin held with ⟨i, -, -, written⟩ | ⟨q, -, -, before⟩
    · exact .of_nothing (swept.shallow row column x.template x.holds text (x.writes written))
    · exact swept.shallow q c text before
  ahead r c text held written := by
    rcases x.text_origin held with ⟨i, -, -, fresh⟩ | ⟨q, rfl, other, before⟩
    · have nothing := swept.shallow row column x.template x.holds text (x.writes fresh)
      exact absurd nothing written
    · have later := (swept.ahead q c text before written).here_or.resolve_left other
      exact later.lower (x.le_rowOf q)

theorem step (swept : Swept source options row (column :: rest) s)
    (visited : Visited source options s row column .endless t) : Swept source options row rest t := by
  cases visited with
  | expanded x => exact swept.expanded x
  | quiet nothing =>
      refine ⟨swept.shallow, ?_⟩
      intro r c text held written
      rcases (swept.ahead r c text held written).here_or with ⟨rfl, rfl⟩ | later
      · exact absurd (nothing text held) written
      · exact later

/-- Below the last row there is nothing to expand. -/
theorem written_eq_nil (swept : Swept source options row columns t) (past : t.height ≤ row)
    {r c : Nat} {text : String} (held : t.text? r c = some text) :
    source.written options text = [] := by
  by_contra written
  obtain ⟨cell, present, -⟩ := (Sheet.text?_eq_some_iff ..).1 held
  exact Nat.not_lt.2 past ((swept.ahead r c text held written).lt_height present)

end Swept

/-! ### The rows that are emitted -/

/-- The items that the value of a cell asks for. -/
def Source.itemsFor? (source : Source) (value : CellValue) : Option (List Value) :=
  value.text?.bind source.asked?

/-- How many items the placeholders of a sheet ask for together. -/
def Sheet.itemCount (source : Source) (s : Sheet) : Nat :=
  s.load fun _ _ value => ((source.itemsFor? value).getD []).length

section itemCount

variable {source : Source} {options : FillOptions} {s t : Sheet} {row column : Nat}
  {columns rest : List Nat} {old report : Report}

theorem Source.itemsFor?_of_not_hasContent (source : Source) {value : CellValue}
    (empty : value.hasContent = false) : source.itemsFor? value = none := by
  cases value with
  | text inner =>
      rw [CellValue.hasContent, bne_eq_false_iff_eq] at empty
      rw [itemsFor?, empty, CellValue.text?, Option.bind_some]
      exact asked?_of_none (by cbv)
  | _ => rfl

theorem Source.length_itemsFor? (options : FillOptions) {value : CellValue}
    (nothing : ∀ text, value = .text text → source.written options text = []) :
    ((source.itemsFor? value).getD []).length = 0 := by
  cases value with
  | text inner =>
      rw [itemsFor?, CellValue.text?, Option.bind_some]
      rcases asked?_of_written (nothing inner rfl) with absent | empty
      · rw [absent]
        rfl
      · rw [empty]
        rfl
  | _ => rfl

theorem Expanded.itemsFor?_template (x : Expanded source options s row column) :
    source.itemsFor? (.text x.template) = some x.items := by
  rw [Source.itemsFor?, CellValue.text?, Option.bind_some, Source.asked?_of_first x.first, x.found]

/-- The items of a template that expands at most once are asked for no more. -/
theorem Expanded.itemCount_after (x : Expanded source options s row column)
    (shallow : source.Shallow options x.template) :
    x.after.itemCount source + x.items.length = s.itemCount source := by
  have written :
      (x.values.map fun value => ((source.itemsFor? value).getD []).length).sum = 0 := by
    rw [List.sum_eq_zero_iff_forall_eq_nat]
    intro n member
    obtain ⟨value, inside, rfl⟩ := List.mem_map.1 member
    apply Source.length_itemsFor? options
    rintro text rfl
    rw [← x.written_eq] at inside
    exact shallow text inside
  have same := x.load_after_eq (fun value => ((source.itemsFor? value).getD []).length)
    fun value nothing => by rw [source.itemsFor?_of_not_hasContent nothing]; rfl
  rwa [written, x.itemsFor?_template, Nat.add_zero] at same

theorem Sheet.itemCount_eq_zero
    (nothing : ∀ r c text, s.text? r c = some text → source.written options text = []) :
    s.itemCount source = 0 := by
  apply Sheet.load_eq_zero
  intro r c cell held
  apply Source.length_itemsFor? options
  intro text shown
  exact nothing r c text ((Sheet.text?_eq_some_iff ..).2 ⟨cell, held, shown⟩)

/-- During the walk the rows that were emitted and the items that are still asked for come to what
the sheet asked for at the beginning. -/
structure Emitting (source : Source) (options : FillOptions) (s : Sheet) (old : Report) (row : Nat)
    (columns : List Nat) (t : Sheet) (report : Report) : Prop
    extends Swept source options row columns t where
  emitted : report.rowsEmitted + t.itemCount source = old.rowsEmitted + s.itemCount source

namespace Emitting

variable {u : Sheet} {outcome : Outcome}

theorem start (shallow : ∀ r c text, s.text? r c = some text → source.Shallow options text)
    (above : ∀ r, s.hasRow r = true → row ≤ r) (old : Report) :
    Emitting source options s old row (s.columns row) s old where
  toSwept := .start shallow above
  emitted := rfl

theorem next (emitting : Emitting source options s old row [] t report) :
    Emitting source options s old (row + 1) (t.columns (row + 1)) t report where
  toSwept := emitting.toSwept.next
  emitted := emitting.emitted

theorem step (emitting : Emitting source options s old row (column :: rest) t report)
    (visit : CollectionVisit source options t row column .endless u outcome)
    (location : Location) :
    Emitting source options s old row rest u (report.absorb location outcome) where
  toSwept := emitting.toSwept.step visit.visited
  emitted := by
    have before := emitting.emitted
    cases visit with
    | plain nothing => exact before
    | unresolved template use holds first absent => exact before
    | empty template use holds first found => exact before
    | expanded x =>
        have less := x.itemCount_after (emitting.shallow row column x.template x.holds)
        change report.rowsEmitted + x.items.length + x.after.itemCount source = _
        omega

/-- Below the last row all items have got their rows. -/
theorem rowsEmitted_eq (emitting : Emitting source options s old row columns t report)
    (past : t.height ≤ row) : report.rowsEmitted = old.rowsEmitted + s.itemCount source := by
  have none : t.itemCount source = 0 :=
    Sheet.itemCount_eq_zero fun r c text held => emitting.written_eq_nil past held
  rw [← emitting.emitted, none, Nat.add_zero]

end Emitting

end itemCount

namespace Sheet

variable {source : Source} {options : FillOptions} {s : Sheet}

/-- On a sheet of texts that expand at most once the collection pass ends, also in machine words if
there is headroom for the items. It emits one row for each of them. -/
theorem walk_collections_ends_of_shallow
    (shallow : ∀ r c text, s.text? r c = some text → source.Shallow options text)
    (report : Report) :
    ∃ enough last report', report'.rowsEmitted = report.rowsEmitted + s.itemCount source ∧
      ∀ counting, s.Headroom counting (s.itemCount source) → ∀ bound ≥ enough,
        s.walk (visitCollections source options false counting) false bound report counting =
          some (.done last report') := by
  obtain ⟨enough, last, report', ends⟩ := walk_collections_ends
    (SettledThroughout.onWalk fun r c text held => (shallow r c text held).settlesThroughout) report
  obtain ⟨_, _, behind, done, past, emitting⟩ :=
    walk_reports (Emitting source options s report)
      (fun row column rest t now emitting => by
        obtain ⟨next, outcome, ran, visit⟩ := visitCollections_cases source options t row column
        exact ⟨next, outcome, ran, emitting.step visit _⟩)
      (fun _ _ _ emitting => emitting.next) (fun _ above => .start shallow above report)
      (ends enough (Nat.le_refl enough))
  cases done
  have count := emitting.rowsEmitted_eq past
  refine ⟨enough, last, report', count, fun counting headroom bound large => ?_⟩
  have total : report.rowsEmitted + s.itemCount source = report'.rowsEmitted + 0 := count.symm
  exact ((visitCollections_agrees source options counting).walk_iff bound _ headroom total).1.2
    (ends bound large)

end Sheet

end Stencil
