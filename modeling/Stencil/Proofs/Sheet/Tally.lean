import Stencil.Proofs.Placeholder.Whole
import Stencil.Proofs.Sheet.Sweep

/-! The collection pass expands every cell once. A row that is pushed down is visited again, but the
cells of it that were expanded hold no placeholder any more, so what was counted and what the sheet
still holds always come to the same. -/

namespace Stencil

/-- A text that begins a collection only as a single placeholder, and whose items, if there are any,
begin no collection themselves. -/
structure Source.Tame (source : Source) (options : FillOptions) (text : String) : Prop where
  whole : '[' ∈ text.toList →
    ∃ p : Placeholder, p.kind = .collection ∧ p.WellFormed ∧ text = String.ofList p.text
  filled : ∀ use, firstCollection? text = some use → source.items? use.collection ≠ some []
  plain : ∀ use items, firstCollection? text = some use →
    source.items? use.collection = some items → ∀ item ∈ items, ∀ found,
      itemValue? item use.property = some found → '[' ∉ (found.1.render options found.2).toList

/-- Whether a text is tame. -/
def Source.isTame (source : Source) (options : FillOptions) (text : String) : Bool :=
  !text.toList.contains '[' ||
    ((classify .collection text).isSinglePlaceholder && (firstCollection? text).all fun use =>
      (source.items? use.collection).all fun items =>
        !items.isEmpty && items.all fun item => (itemValue? item use.property).all fun found =>
          !(found.1.render options found.2).toList.contains '[')

namespace Source

variable {source : Source} {options : FillOptions} {text : String} {use : CollectionUse}

theorem mark_mem_of_firstCollection? (first : firstCollection? text = some use) :
    '[' ∈ text.toList := by
  by_contra absent
  have none : hasPlaceholder .collection text = false := hasPlaceholder_of_not_mem absent
  rw [hasPlaceholder_collection, first] at none
  cases none

theorem firstCollection?_eq_none (absent : '[' ∉ text.toList) : firstCollection? text = none := by
  cases first : firstCollection? text with
  | none => rfl
  | some use => exact absurd (mark_mem_of_firstCollection? first) absent

theorem Tame.of_not_mem (absent : '[' ∉ text.toList) : source.Tame options text where
  whole present := absurd present absent
  filled _ first := absurd (mark_mem_of_firstCollection? first) absent
  plain _ _ first := absurd (mark_mem_of_firstCollection? first) absent

theorem tame_of_isTame (tame : source.isTame options text = true) : source.Tame options text := by
  by_cases begins : '[' ∈ text.toList
  · simp only [isTame, List.contains_eq_mem, begins, decide_true, Bool.not_true, Bool.false_or,
      Bool.and_eq_true, Option.all_eq_true, List.all_eq_true, Bool.not_eq_true',
      List.isEmpty_eq_false_iff, decide_eq_false_iff_not] at tame
    obtain ⟨single, items⟩ := tame
    refine ⟨fun _ => exists_of_isSinglePlaceholder single, ?_, ?_⟩
    · intro use first none
      exact (items use first [] none).1 rfl
    · intro use found first resolves item member value property
      exact (items use first found resolves).2 item member value property
  · exact .of_not_mem begins

/-- What is written for a tame text begins no collection. -/
theorem Tame.not_mem_of_written (tame : source.Tame options text) {later : String}
    (written : .text later ∈ source.written options text) : '[' ∉ later.toList := by
  obtain ⟨use, begins⟩ := exists_first_of_written written
  obtain ⟨p, kind, good, rfl⟩ := tame.whole (mark_mem_of_firstCollection? begins)
  have single := isSinglePlaceholder_text good
  rw [kind] at single
  obtain ⟨use, items, item, found, first, resolves, member, property, rfl⟩ :=
    exists_of_written single written
  exact tame.plain use items first resolves item member found property

theorem Tame.shallow (tame : source.Tame options text) : source.Shallow options text :=
  fun _ writes => written_of_none (firstCollection?_eq_none (tame.not_mem_of_written writes))

end Source

namespace Sheet

/-- How many cells have a placeholder with a sequence to expand. -/
def expandable (source : Source) (s : Sheet) : Nat :=
  s.load fun _ _ value => if (source.itemsFor? value).isSome then 1 else 0

end Sheet

variable {source : Source} {options : FillOptions} {s t : Sheet} {row column : Nat}

/-- What is written for a tame template asks for nothing. -/
theorem Expanded.itemsFor?_values (x : Expanded source options s row column)
    (tame : source.Tame options x.template) : ∀ value ∈ x.values, source.itemsFor? value = none := by
  intro value member
  cases value with
  | text later =>
      rw [← x.written_eq] at member
      have absent := Source.firstCollection?_eq_none (tame.not_mem_of_written member)
      rw [Source.itemsFor?, CellValue.text?, Option.bind_some, Source.asked?_of_none absent]
  | _ => rfl

theorem Expanded.expandable_after (x : Expanded source options s row column)
    (tame : source.Tame options x.template) :
    x.after.expandable source + 1 = s.expandable source := by
  have written :
      (x.values.map fun value => if (source.itemsFor? value).isSome then 1 else 0).sum = 0 := by
    rw [List.sum_eq_zero_iff_forall_eq_nat]
    intro n member
    obtain ⟨value, inside, rfl⟩ := List.mem_map.1 member
    rw [x.itemsFor?_values tame value inside]
    rfl
  have same := x.load_after_eq
    (fun value => if (source.itemsFor? value).isSome then 1 else 0)
    fun value nothing => by rw [source.itemsFor?_of_not_hasContent nothing]; rfl
  rwa [written, x.itemsFor?_template, Nat.add_zero] at same

/-- During the walk all texts are tame, and the cells that were expanded and those that are left come
to what the sheet had at the beginning. -/
structure Tallied (source : Source) (options : FillOptions) (s : Sheet) (row : Nat)
    (columns : List Nat) (t : Sheet) (report : Report) : Prop
    extends Swept source options row columns t where
  tame : ∀ r c text, t.text? r c = some text → source.Tame options text
  expanded : report.collectionsExpanded + t.expandable source = s.expandable source

namespace Tallied

variable {columns rest : List Nat} {report : Report} {u : Sheet} {outcome : Outcome}

theorem start (tame : ∀ r c text, s.text? r c = some text → source.Tame options text)
    (above : ∀ r, s.hasRow r = true → row ≤ r) :
    Tallied source options s row (s.columns row) s {} where
  toSwept := .start (fun r c text held => (tame r c text held).shallow) above
  tame := tame
  expanded := Nat.zero_add _

theorem next (tallied : Tallied source options s row [] t report) :
    Tallied source options s (row + 1) (t.columns (row + 1)) t report where
  toSwept := tallied.toSwept.next
  tame := tallied.tame
  expanded := tallied.expanded

theorem step (tallied : Tallied source options s row (column :: rest) t report)
    (visit : CollectionVisit source options t row column .endless u outcome) (location : Location) :
    Tallied source options s row rest u (report.absorb location outcome) := by
  have swept := tallied.toSwept.step visit.visited
  cases visit with
  | plain nothing => exact ⟨swept, tallied.tame, tallied.expanded⟩
  | unresolved template use holds first absent =>
      exact ⟨swept, tallied.tame, tallied.expanded⟩
  | empty template use holds first found =>
      exact absurd found ((tallied.tame row column template holds).filled use first)
  | expanded x =>
      have template := tallied.tame row column x.template x.holds
      have fewer := x.expandable_after template
      have cells := tallied.expanded
      refine ⟨swept, ?_, ?_⟩
      · intro r c text held
        rcases x.text_origin held with ⟨i, -, -, written⟩ | ⟨q, -, -, before⟩
        · exact .of_not_mem (template.not_mem_of_written (x.writes written))
        · exact tallied.tame q c text before
      · change report.collectionsExpanded + 1 + x.after.expandable source = _
        omega

/-- Nothing is left to expand below the last row. -/
theorem itemsFor?_eq_none (tallied : Tallied source options s row columns t report)
    (past : t.height ≤ row) {r c : Nat} {cell : Cell} (held : t.cell? r c = some cell) :
    source.itemsFor? cell.value = none := by
  cases shown : cell.value.text? with
  | none => rw [Source.itemsFor?, shown, Option.bind_none]
  | some text =>
      have here : t.text? r c = some text := by
        rw [Sheet.text?, Sheet.value?, held]
        exact shown
      rw [Source.itemsFor?, shown, Option.bind_some]
      rcases Source.asked?_of_written (tallied.written_eq_nil past here) with none | empty
      · exact none
      · obtain ⟨use, first, found⟩ := Option.bind_eq_some_iff.1 empty
        exact absurd found ((tallied.tame r c text here).filled use first)

end Tallied

namespace Sheet

/-- On a sheet of tame texts, with headroom for their items, the collection pass ends. It expands
each cell whose placeholder has a sequence in the sheet as it was, and it emits as many rows as
these sequences have items. -/
theorem collections_expand_once (source : Source) (options : FillOptions) (s : Sheet)
    (counting : Counting) (tame : ∀ r c text, s.text? r c = some text → source.Tame options text)
    (headroom : s.Headroom counting (s.itemCount source)) :
    ∃ enough last report,
      (∀ bound ≥ enough,
        s.walk (visitCollections source options false counting) false bound {} counting =
          some (.done last report)) ∧
      report.collectionsExpanded = s.expandable source ∧
      report.rowsEmitted = s.itemCount source := by
  obtain ⟨enough, last, report, emitted, ends⟩ :=
    walk_collections_ends_of_shallow (fun r c text held => (tame r c text held).shallow) {}
  obtain ⟨last', report', behind, done, past, tallied⟩ :=
    walk_reports (Tallied source options s)
      (fun row column rest t report tallied => by
        obtain ⟨next, outcome, ran, visit⟩ := visitCollections_cases source options t row column
        exact ⟨next, outcome, ran, tallied.step visit _⟩)
      (fun _ _ _ tallied => tallied.next) (fun _ above => .start tame above)
      (ends .endless (s.headroom_endless _) enough (Nat.le_refl enough))
  cases done
  refine ⟨enough, last, report, ends counting headroom, ?_, emitted.trans (Nat.zero_add _)⟩
  have none : last.expandable source = 0 :=
    load_eq_zero fun r c cell held => by rw [tallied.itemsFor?_eq_none past held]; rfl
  rw [← tallied.expanded, none, Nat.add_zero]

/-- Three lists side by side, the second under a merged heading, and the last without a value. -/
def register : Sheet :=
  { ofTexts [(0, [(0, "[Name]"), (1, "[Mark]"), (2, "[Note]")]), (1, [(0, "{Date}")])] with
    merged := [⟨0, 0, 1, 1⟩] }

/-- The second list pushes its row down, and the walk comes to the name again that the first list
has left there. -/
theorem register_expands_once :
    ((∀ r c text, register.text? r c = some text →
      (Source.ofValue (.mapping [("Name", .sequence [.text "Ann"]),
        ("Mark", .sequence [.text "A", .text "B"])])).Tame {} text) ∧
      register.Headroom .words (register.itemCount (.ofValue (.mapping
        [("Name", .sequence [.text "Ann"]), ("Mark", .sequence [.text "A", .text "B"])])))) ∧
    ∃ enough last report,
      (∀ bound ≥ enough, register.walk (visitCollections (.ofValue (.mapping
        [("Name", .sequence [.text "Ann"]), ("Mark", .sequence [.text "A", .text "B"])]))
          {} false .words) false bound {} .words = some (.done last report)) ∧
      report.collectionsExpanded = 2 ∧ report.rowsEmitted = 3 := by
  have tame : ∀ r c text, register.text? r c = some text →
      (Source.ofValue (.mapping [("Name", .sequence [.text "Ann"]),
        ("Mark", .sequence [.text "A", .text "B"])])).Tame {} text := fun _ _ _ held =>
    Source.tame_of_isTame (of_allTexts (fun _ _ => Source.isTame _ {}) (by cbv) held)
  have cells : register.expandable (.ofValue (.mapping [("Name", .sequence [.text "Ann"]),
      ("Mark", .sequence [.text "A", .text "B"])])) = 2 := by cbv
  have items : register.itemCount (.ofValue (.mapping [("Name", .sequence [.text "Ann"]),
      ("Mark", .sequence [.text "A", .text "B"])])) = 3 := by cbv
  have headroom : register.Headroom .words (register.itemCount (.ofValue (.mapping
      [("Name", .sequence [.text "Ann"]), ("Mark", .sequence [.text "A", .text "B"])]))) := by
    rw [items]
    decide
  obtain ⟨enough, last, report, ends, expanded, emitted⟩ :=
    collections_expand_once _ {} register .words tame headroom
  exact ⟨⟨tame, headroom⟩, enough, last, report, ends, expanded.trans cells, emitted.trans items⟩

end Sheet

end Stencil
