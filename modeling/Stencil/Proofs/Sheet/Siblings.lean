import Stencil.Proofs.Sheet.Sweep

/-! Two collection columns side by side. The first is expanded before the second, and each looks
for free rows in its own column only. They stay together down to the first row that the second
finds taken; from there on the first is pushed down. -/

namespace Stencil

namespace Sheet

/-- The cell is in the way of an expansion that comes down its column. -/
def Blocked (s : Sheet) (row column : Nat) : Prop :=
  s.isMerged row column = true ∨ (s.value? row column).any CellValue.hasContent = true

theorem any_hasContent_eq_false {s : Sheet} {row column : Nat}
    (blank : ((s.cell? row column).getD {}).value = .blank) :
    (s.value? row column).any CellValue.hasContent = false := by
  rw [value?]
  cases held : s.cell? row column with
  | none => rfl
  | some cell =>
      rw [held, Option.getD_some] at blank
      rw [Option.map_some, Option.any_some, blank]
      rfl

end Sheet

namespace Expanded

variable {source : Source} {options : FillOptions} {s : Sheet} {row column : Nat}

/-- From a cell that is not merged an expansion uses rows down to the first existing one that is
blocked. -/
theorem lt_reach_iff (x : Expanded source options s row column)
    (unmerged : s.isMerged row column = false) {i : Nat} :
    i < x.reach ↔ i < x.items.length ∧
      ∀ j, 0 < j → j ≤ i → s.hasRow (row + j) = true → ¬s.Blocked (row + j) column := by
  rw [reach, Expansion.lt_reach_iff]
  refine and_congr_right fun inside => ⟨fun usable j positive low present blocked => ?_,
    fun free j low taken => ?_⟩
  · refine usable j low ((Expansion.rowState_eq_taken_iff ..).2 ⟨present, ?_⟩)
    exact blocked.imp_right fun content => ⟨positive, content⟩
  · obtain ⟨present, blocked⟩ := (Expansion.rowState_eq_taken_iff ..).1 taken
    rcases Nat.eq_zero_or_pos j with rfl | positive
    · rcases blocked with merged | ⟨impossible, -⟩
      · exact Bool.false_ne_true (unmerged.symm.trans merged)
      · exact Nat.lt_irrefl _ impossible
    · exact free j positive low present (blocked.imp_right And.right)

/-- In a row that was used where it is no other column is blocked that was not before. -/
theorem blocked_reused (x : Expanded source options s row column) {i c : Nat}
    (low : i < x.reach) (other : c ≠ column) :
    x.after.Blocked (row + i) c ↔ s.Blocked (row + i) c := by
  have fits := x.reach_le
  have still : x.rowOf (row + i) = row + i := by
    rw [rowOf, Sparse.moved_of_lt (by omega)]
  have merged := x.isMerged_after (row + i) c
  rw [still] at merged
  have content : (x.after.value? (row + i) c).any CellValue.hasContent =
      (s.value? (row + i) c).any CellValue.hasContent := by
    cases present : s.hasRow (row + i) with
    | true => rw [Sheet.value?, x.cell?_reused low present other, Sheet.value?]
    | false =>
        rw [Sheet.any_hasContent_eq_false (x.blank_made (by omega) (fun _ => present) other)]
        rw [Sheet.hasRow_eq_isSome, Option.isSome_eq_false_iff, Option.isNone_iff_eq_none]
          at present
        rw [Sheet.value?, Sheet.cell?, present]
        rfl
  rw [Sheet.Blocked, merged, content, Sheet.Blocked]

/-- A row that was inserted is blocked in another column only by a region that it was inserted
into. -/
theorem isMerged_of_blocked_inserted (x : Expanded source options s row column) {i c : Nat}
    (high : x.reach ≤ i) (inside : i < x.items.length) (other : c ≠ column)
    (blocked : x.after.Blocked (row + i) c) : s.isMerged (row + x.reach - 1) c = true := by
  have blank := Sheet.any_hasContent_eq_false
    (x.blank_made inside (fun low => absurd low (Nat.not_lt.2 high)) other)
  rcases blocked with merged | content
  · rw [Sheet.isMerged, x.merged_after, Sheet.shiftRows, Sheet.wrap_endless, List.any_map,
      List.any_eq_true] at merged
    obtain ⟨region, member, holds⟩ := merged
    have before := Region.contains_of_contains_gap (by omega) (by omega) holds
    rw [Sheet.isMerged, List.any_eq_true]
    exact ⟨region, member, before.2⟩
  · rw [blank] at content
    cases content

end Expanded

/-- What a cell holds for an item, if its text is the placeholder and nothing else. -/
def itemCell (options : FillOptions) (property : Option String) (item : Value) : CellValue :=
  let found := (itemValue? item property).getD (.null, none)
  .ofValue options found.2 found.1

/-- A cell outside of all merged regions that is one placeholder for the items. -/
structure Lists (source : Source) (s : Sheet) (row column : Nat) (items : List Value)
    (property : Option String) : Prop where
  text : ∃ path name, (Placeholder.collection path name).WellFormed ∧
    s.text? row column = some (String.ofList (Placeholder.collection path name).text) ∧
    source.items? (String.ofList path) = some items ∧ property = name.map String.ofList
  unmerged : s.isMerged row column = false

variable {source : Source} {options : FillOptions} {s : Sheet} {row column : Nat}
  {items : List Value} {property : Option String}

theorem Lists.written (lists : Lists source s row column items property)
    (options : FillOptions) {text : String} (held : s.text? row column = some text) :
    source.written options text = items.map (itemCell options property) := by
  obtain ⟨path, name, good, holds, found, rfl⟩ := lists.text
  cases held.symm.trans holds
  have single : (classify .collection
      (String.ofList (Placeholder.collection path name).text)).isSinglePlaceholder = true :=
    isSinglePlaceholder_text good
  rw [Source.written, firstCollection?_text good, Option.elim_some, found, Option.getD_some]
  apply List.map_congr_left
  intro item _
  rw [CollectionUse.valueOf, if_pos single]
  rfl

theorem Lists.mem_columns (lists : Lists source s row column items property) :
    column ∈ s.columns row := by
  obtain ⟨path, name, -, held, -⟩ := lists.text
  obtain ⟨cell, present, -⟩ := (Sheet.text?_eq_some_iff ..).1 held
  exact Sheet.mem_columns present

theorem Lists.hasRow (lists : Lists source s row column items property) :
    s.hasRow row = true := by
  obtain ⟨path, name, -, held, -⟩ := lists.text
  obtain ⟨cell, present, -⟩ := (Sheet.text?_eq_some_iff ..).1 held
  exact Sheet.hasRow_of_cell? present

theorem Lists.values_eq (lists : Lists source s row column items property)
    (x : Expanded source options s row column) :
    x.values = items.map (itemCell options property) := by
  rw [← x.written_eq, lists.written options x.holds]

theorem Lists.length_eq (lists : Lists source s row column items property)
    (x : Expanded source options s row column) : x.items.length = items.length := by
  rw [← x.values_length, lists.values_eq x, List.length_map]

theorem Lists.reach_pos (lists : Lists source s row column items property)
    (x : Expanded source options s row column) : 0 < x.reach := by
  apply Nat.pos_of_ne_zero
  intro pushed
  exact Bool.false_ne_true (lists.unmerged.symm.trans (x.isMerged_of_pushed pushed))

theorem Lists.plain_values (lists : Lists source s row column items property)
    (x : Expanded source options s row column)
    (plain : ∀ item ∈ items, ∀ text,
      itemCell options property item = .text text → '[' ∉ text.toList)
    {i : Nat} {text : String} (written : x.values[i]? = some (.text text)) :
    hasPlaceholder .collection text = false := by
  rw [lists.values_eq x, List.getElem?_map] at written
  obtain ⟨item, at_, same⟩ := Option.map_eq_some_iff.1 written
  exact hasPlaceholder_of_not_mem (plain item (List.mem_of_getElem? at_) text same)

theorem Source.written_of_plain {text : String}
    (plain : hasPlaceholder .collection text = false) : source.written options text = [] := by
  rw [hasPlaceholder_collection, Option.isSome_eq_false_iff, Option.isNone_iff_eq_none] at plain
  rw [Source.written, plain, Option.elim_none]

theorem Lists.shallow (lists : Lists source s row column items property)
    (plain : ∀ item ∈ items, ∀ text,
      itemCell options property item = .text text → '[' ∉ text.toList)
    {text : String} (held : s.text? row column = some text) : source.Shallow options text := by
  intro later writes
  rw [Writes, lists.written options held] at writes
  obtain ⟨item, member, same⟩ := List.mem_map.1 writes
  exact Source.written_of_plain (hasPlaceholder_of_not_mem (plain item member later same))

/-- A visit with nothing to write changes nothing. -/
theorem Visited.eq_of_nothing {next : Sheet}
    (visited : Visited source options s row column .endless next)
    (nothing : ∀ text, s.text? row column = some text → source.written options text = []) :
    next = s := by
  cases visited with
  | quiet _ => rfl
  | expanded x =>
      have none := nothing _ x.holds
      rw [x.written_eq, ← List.length_eq_zero_iff, x.values_length] at none
      exact absurd (List.length_eq_zero_iff.1 none) x.nonempty

theorem rowVisit_of_nothing
    (nothing : ∀ c text, s.text? row c = some text → source.written options text = [])
    (columns : List Nat) :
    Sheet.RowVisit (Sheet.visitCollections source options false) row columns s s := by
  have step : ∀ column (rest : List Nat) t, t = s →
      ∃ next outcome, Sheet.visitCollections source options false .endless t row column =
        .done next outcome ∧ next = s := by
    rintro column rest t rfl
    obtain ⟨next, outcome, ran, visited⟩ := visitCollections_visited source options t row column
    exact ⟨next, outcome, ran, visited.eq_of_nothing (nothing column)⟩
  obtain ⟨next, visits, rfl⟩ := Sheet.rowVisit_of_step (fun _ t => t = s) step columns rfl
  exact visits

theorem Visited.exists_expanded {next : Sheet}
    (visited : Visited source options s row column .endless next)
    (lists : Lists source s row column items property) (nonempty : items ≠ []) :
    ∃ x : Expanded source options s row column, next = x.after := by
  cases visited with
  | quiet nothing =>
      obtain ⟨path, name, -, held, -⟩ := lists.text
      have none := nothing _ held
      rw [lists.written options held, List.map_eq_nil_iff] at none
      exact absurd none nonempty
  | expanded x => exact ⟨x, rfl⟩

/-- Two cells of one row list the same items, no other cell lists anything, and no item brings a
placeholder along. -/
structure Siblings (source : Source) (options : FillOptions) (s : Sheet) (row left right : Nat)
    (items : List Value) (p q : Option String) : Prop where
  order : left < right
  first : Lists source s row left items p
  second : Lists source s row right items q
  others : ∀ r c text, s.text? r c = some text → hasPlaceholder .collection text = true →
    r = row ∧ (c = left ∨ c = right)
  plain : ∀ item ∈ items, ∀ text,
    itemCell options p item = .text text ∨ itemCell options q item = .text text →
      '[' ∉ text.toList

/-- Where the first column goes down through rows of the sheet, the second is not blocked. -/
def Sheet.Clear (s : Sheet) (row left right count : Nat) : Prop :=
  ∀ i, 0 < i → i < count →
    (∀ j, 0 < j → j ≤ i → s.hasRow (row + j) = true → ¬s.Blocked (row + j) left) →
      ¬s.Blocked (row + i) right

namespace Siblings

variable {left right : Nat} {p q : Option String}
  (siblings : Siblings source options s row left right items p q)
  (x : Expanded source options s row left) (y : Expanded source options x.after row right)

include siblings

theorem plain_left : ∀ item ∈ items, ∀ text,
    itemCell options p item = .text text → '[' ∉ text.toList :=
  fun item member text same => siblings.plain item member text (.inl same)

theorem plain_right : ∀ item ∈ items, ∀ text,
    itemCell options q item = .text text → '[' ∉ text.toList :=
  fun item member text same => siblings.plain item member text (.inr same)

/-- The second cell is still there when the first is expanded. -/
theorem lists_after : Lists source x.after row right items q := by
  have other : right ≠ left := Nat.ne_of_gt siblings.order
  have used := siblings.first.reach_pos x
  obtain ⟨path, name, good, held, found, same⟩ := siblings.second.text
  obtain ⟨cell, present, value⟩ := (Sheet.text?_eq_some_iff ..).1 held
  have kept : x.after.cell? row right = s.cell? row right :=
    x.cell?_reused used (Sheet.hasRow_of_cell? present) other
  refine ⟨⟨path, name, good, ?_, found, same⟩, ?_⟩
  · rw [Sheet.text?, Sheet.value?, kept]
    exact held
  · have unmerged := x.isMerged_after row right
    rw [Expanded.rowOf, Sparse.moved_of_lt (by omega)] at unmerged
    rw [unmerged]
    exact siblings.second.unmerged

theorem others_after {r c : Nat} {text : String} (held : x.after.text? r c = some text)
    (collection : hasPlaceholder .collection text = true) : r = row ∧ c = right := by
  have used := siblings.first.reach_pos x
  rcases x.text_origin held with ⟨i, -, -, written⟩ | ⟨r', rfl, other, before⟩
  · have plain := siblings.first.plain_values x siblings.plain_left written
    rw [plain] at collection
    cases collection
  · obtain ⟨rfl, place⟩ := siblings.others r' c text before collection
    refine ⟨?_, place.resolve_left fun same => other ⟨rfl, same⟩⟩
    rw [Expanded.rowOf, Sparse.moved_of_lt (by omega)]

theorem plain_after {r c : Nat} {text : String} (held : y.after.text? r c = some text) :
    hasPlaceholder .collection text = false := by
  rcases y.text_origin held with ⟨i, -, -, written⟩ | ⟨r', rfl, other, before⟩
  · exact (siblings.lists_after x).plain_values y siblings.plain_right written
  · by_contra collection
    rw [Bool.not_eq_false] at collection
    exact other (siblings.others_after x before collection)

theorem lt_reach_first_iff {i : Nat} : i < x.reach ↔ i < items.length ∧
    ∀ j, 0 < j → j ≤ i → s.hasRow (row + j) = true → ¬s.Blocked (row + j) left := by
  rw [x.lt_reach_iff siblings.first.unmerged, siblings.first.length_eq x]

theorem lt_reach_second_iff {i : Nat} : i < y.reach ↔ i < items.length ∧
    ∀ j, 0 < j → j ≤ i → x.after.hasRow (row + j) = true →
      ¬x.after.Blocked (row + j) right := by
  have second := siblings.lists_after x
  rw [y.lt_reach_iff second.unmerged, second.length_eq y]

/-- If the second column is not blocked where the first goes down, then it is not blocked by
what the first has inserted either. -/
theorem not_blocked_of_clear (clear : s.Clear row left right items.length) {i : Nat}
    (positive : 0 < i) (inside : i < items.length) : ¬x.after.Blocked (row + i) right := by
  have other : right ≠ left := Nat.ne_of_gt siblings.order
  have count := siblings.first.length_eq x
  have used := siblings.first.reach_pos x
  have free : ∀ i, 0 < i → i < x.reach → ¬s.Blocked (row + i) right := by
    intro i positive low
    obtain ⟨inside, before⟩ := (siblings.lt_reach_first_iff x).1 low
    exact clear i positive inside before
  intro blocked
  rcases Nat.lt_or_ge i x.reach with reused | inserted
  · exact free i positive reused ((x.blocked_reused reused other).1 blocked)
  · -- the region that reaches into the inserted rows holds the row above them
    have merged := x.isMerged_of_blocked_inserted inserted (by omega) other blocked
    rcases Nat.eq_or_lt_of_le used with one | more
    · rw [← one, Nat.add_sub_cancel, siblings.second.unmerged] at merged
      cases merged
    · rw [Nat.add_sub_assoc used] at merged
      exact free (x.reach - 1) (by omega) (by omega) (.inl merged)

/-- The columns stay together to the end if the second is not blocked where the first goes
down. -/
theorem reach_eq_iff : y.reach = items.length ↔ s.Clear row left right items.length := by
  have other : right ≠ left := Nat.ne_of_gt siblings.order
  have count := siblings.first.length_eq x
  constructor
  · intro whole i positive low free blocked
    have reused : i < x.reach := (siblings.lt_reach_first_iff x).2 ⟨low, free⟩
    rw [← whole, siblings.lt_reach_second_iff x y] at low
    have present : x.after.hasRow (row + i) = true := x.hasRow_written (by omega)
    apply low.2 i positive (Nat.le_refl i) present
    exact (x.blocked_reused reused other).2 blocked
  · intro clear
    have fits : y.reach ≤ items.length := by
      rw [← (siblings.lists_after x).length_eq y]
      exact y.reach_le
    by_contra short
    have low : y.reach < items.length := Nat.lt_of_le_of_ne fits short
    apply Nat.lt_irrefl y.reach
    rw [siblings.lt_reach_second_iff x y]
    refine ⟨low, ?_⟩
    intro j positive early _
    exact siblings.not_blocked_of_clear x clear positive (Nat.lt_of_le_of_lt early low)

/-- The second column stands where it was written, the first has moved down where the second has
pushed rows down. -/
theorem value?_after {i : Nat} {item : Value} (at_ : items[i]? = some item) :
    y.after.value? (row + i) right = some (itemCell options q item) ∧
      y.after.value? (if i < y.reach then row + i else row + i + (items.length - y.reach)) left =
        some (itemCell options p item) := by
  have other : left ≠ right := Nat.ne_of_lt siblings.order
  have inside : i < items.length := (List.getElem?_eq_some_iff.1 at_).1
  have count := siblings.first.length_eq x
  have count' := (siblings.lists_after x).length_eq y
  have first : x.after.value? (row + i) left = some (itemCell options p item) := by
    apply x.value?_written
    rw [siblings.first.values_eq x, List.getElem?_map, at_, Option.map_some]
  constructor
  · apply y.value?_written
    rw [(siblings.lists_after x).values_eq y, List.getElem?_map, at_, Option.map_some]
  · split
    · rename_i low
      rw [Sheet.value?, y.cell?_reused low (x.hasRow_written (by omega)) other]
      exact first
    · rw [Sheet.value?, ← count', y.cell?_below (by omega) fun both => other both.2]
      exact first

end Siblings

/-- What the pass has made of the sheet when the row of the siblings is behind it. -/
inductive SiblingsDone (source : Source) (options : FillOptions) (s : Sheet)
    (row left right : Nat) (items : List Value) : Sheet → Prop
  | empty (none : items = []) : SiblingsDone source options s row left right items s
  | written (x : Expanded source options s row left)
      (y : Expanded source options x.after row right) :
      SiblingsDone source options s row left right items y.after

/-- How far the pass has come in the row of the siblings. -/
inductive SiblingsStage (source : Source) (options : FillOptions) (s : Sheet)
    (row left right : Nat) (items : List Value) : List Nat → Sheet → Prop
  | empty {columns : List Nat} (none : items = []) :
      SiblingsStage source options s row left right items columns s
  | both {columns : List Nat} (nonempty : items ≠ []) (first : left ∈ columns)
      (second : right ∈ columns) :
      SiblingsStage source options s row left right items columns s
  | second {columns : List Nat} (nonempty : items ≠ []) (x : Expanded source options s row left)
      (second : right ∈ columns) :
      SiblingsStage source options s row left right items columns x.after
  | written {columns : List Nat} (x : Expanded source options s row left)
      (y : Expanded source options x.after row right) :
      SiblingsStage source options s row left right items columns y.after

namespace Siblings

variable {left right : Nat} {p q : Option String}
  (siblings : Siblings source options s row left right items p q)

include siblings

/-- Outside of the two cells, and everywhere if there are no items, nothing is written. -/
theorem written_eq_nil {r c : Nat} {text : String} (held : s.text? r c = some text)
    (outside : items = [] ∨ ¬(r = row ∧ (c = left ∨ c = right))) :
    source.written options text = [] := by
  cases collection : hasPlaceholder .collection text with
  | false => exact Source.written_of_plain collection
  | true =>
      obtain ⟨rfl, place⟩ := siblings.others r c text held collection
      have none : items = [] := outside.resolve_right fun no => no ⟨rfl, place⟩
      rcases place with rfl | rfl
      · rw [siblings.first.written options held, none, List.map_nil]
      · rw [siblings.second.written options held, none, List.map_nil]

theorem stage_step {column : Nat} {rest : List Nat} {t next : Sheet}
    (ascending : (column :: rest).Pairwise (· < ·))
    (stage : SiblingsStage source options s row left right items (column :: rest) t)
    (visited : Visited source options t row column .endless next) :
    SiblingsStage source options s row left right items rest next := by
  have order := siblings.order
  have behind := (List.pairwise_cons.1 ascending).1
  cases stage with
  | empty none =>
      rw [visited.eq_of_nothing fun text held => siblings.written_eq_nil held (.inl none)]
      exact .empty none
  | both nonempty first second =>
      rcases List.mem_cons.1 first with here | later
      · -- the second column comes behind the first
        subst here
        obtain ⟨x, rfl⟩ := visited.exists_expanded siblings.first nonempty
        exact .second nonempty x ((List.mem_cons.1 second).resolve_left (Nat.ne_of_gt order))
      · have before := behind left later
        rw [visited.eq_of_nothing fun text held =>
          siblings.written_eq_nil held (.inr fun both => by omega)]
        exact .both nonempty later ((List.mem_cons.1 second).resolve_left (by omega))
  | second nonempty x second =>
      rcases List.mem_cons.1 second with here | later
      · subst here
        obtain ⟨y, rfl⟩ := visited.exists_expanded (siblings.lists_after x) nonempty
        exact .written x y
      · have before := behind right later
        rw [visited.eq_of_nothing fun text held => Source.written_of_plain <| by
          by_contra collection
          rw [Bool.not_eq_false] at collection
          have place := siblings.others_after x held collection
          omega]
        exact .second nonempty x later
  | written x y =>
      rw [visited.eq_of_nothing fun text held =>
        Source.written_of_plain (siblings.plain_after x y held)]
      exact .written x y

theorem row_visit : ∃ next,
    Sheet.RowVisit (Sheet.visitCollections source options false) row (s.columns row) s next ∧
      SiblingsDone source options s row left right items next := by
  have start : SiblingsStage source options s row left right items (s.columns row) s := by
    by_cases none : items = []
    · exact .empty none
    · exact .both none siblings.first.mem_columns siblings.second.mem_columns
  have step : ∀ column rest t, ((column :: rest).Pairwise (· < ·) ∧
      SiblingsStage source options s row left right items (column :: rest) t) →
      ∃ next outcome, Sheet.visitCollections source options false .endless t row column =
        .done next outcome ∧ rest.Pairwise (· < ·) ∧
          SiblingsStage source options s row left right items rest next := by
    intro column rest t ⟨ascending, stage⟩
    obtain ⟨next, outcome, ran, visited⟩ := visitCollections_visited source options t row column
    exact ⟨next, outcome, ran, (List.pairwise_cons.1 ascending).2,
      siblings.stage_step ascending stage visited⟩
  obtain ⟨next, visits, -, stage⟩ := Sheet.rowVisit_of_step
    (fun columns t => columns.Pairwise (· < ·) ∧
      SiblingsStage source options s row left right items columns t)
    step (s.columns row) ⟨Sheet.columns_ascending s row, start⟩
  refine ⟨next, visits, ?_⟩
  cases stage with
  | empty none => exact .empty none
  | both _ first _ => cases first
  | second _ _ second => cases second
  | written x y => exact .written x y

/-- Behind the siblings nothing is left to expand. -/
theorem nothing_left {t : Sheet} (done : SiblingsDone source options s row left right items t)
    {r c : Nat} {text : String} (held : t.text? r c = some text) :
    source.written options text = [] := by
  cases done with
  | empty none => exact siblings.written_eq_nil held (.inl none)
  | written x y => exact Source.written_of_plain (siblings.plain_after x y held)

/-- The pass over the sheet ends, and what it does is to expand the siblings. -/
theorem walk_ends (report : Report) :
    ∃ enough last report', SiblingsDone source options s row left right items last ∧
      ∀ bound ≥ enough, s.walk (Sheet.visitCollections source options false) false bound report =
        some (.done last report') := by
  have step : ∀ r t, r < t.height →
      (r ≤ row ∧ t = s ∨ row < r ∧ SiblingsDone source options s row left right items t) →
      ∃ next, Sheet.RowVisit (Sheet.visitCollections source options false) r (t.columns r) t next ∧
        (r + 1 ≤ row ∧ next = s ∨
          row < r + 1 ∧ SiblingsDone source options s row left right items next) ∧
        ((if r + 1 ≤ row then 1 else 0) < (if r ≤ row then 1 else 0) ∨
          (if r + 1 ≤ row then 1 else 0) = (if r ≤ row then 1 else 0) ∧
            next.height ≤ t.height) := by
    rintro r t - (⟨above, rfl⟩ | ⟨below, done⟩)
    · rcases Nat.lt_or_eq_of_le above with high | rfl
      · refine ⟨t, ?_, .inl ⟨high, rfl⟩, .inr ⟨?_, Nat.le_refl _⟩⟩
        · exact rowVisit_of_nothing
            (fun c text held => siblings.written_eq_nil held (.inr fun both => by omega)) _
        · rw [if_pos above, if_pos (Nat.succ_le_of_lt high)]
      · obtain ⟨next, visits, done⟩ := siblings.row_visit
        refine ⟨next, visits, .inr ⟨Nat.lt_succ_self r, done⟩, .inl ?_⟩
        rw [if_pos (Nat.le_refl r), if_neg (Nat.not_succ_le_self r)]
        exact Nat.one_pos
    · refine ⟨t, ?_, .inr ⟨by omega, done⟩, .inr ⟨?_, Nat.le_refl _⟩⟩
      · exact rowVisit_of_nothing (fun c text held => siblings.nothing_left done held) _
      · rw [if_neg (by omega), if_neg (by omega)]
  obtain ⟨first, start, low⟩ := Sheet.exists_firstRow siblings.first.hasRow
  obtain ⟨enough, last, report', behind, past, holds, ends⟩ :=
    Sheet.walkFrom_ends _ (fun r _ => if r ≤ row then 1 else 0) step
      (Nat.lt_wfRel.wf.apply _) report (.inl ⟨low, rfl⟩)
  refine ⟨enough, last, report', ?_, ?_⟩
  · rcases holds with ⟨above, rfl⟩ | ⟨-, done⟩
    · have high := Sheet.lt_height siblings.first.hasRow
      omega
    · exact done
  · intro bound large
    rw [Sheet.walk, start]
    exact ends bound large

theorem shallow {r c : Nat} {text : String} (held : s.text? r c = some text) :
    source.Shallow options text := by
  cases collection : hasPlaceholder .collection text with
  | false => exact .of_nothing (Source.written_of_plain collection)
  | true =>
      obtain ⟨rfl, rfl | rfl⟩ := siblings.others r c text held collection
      · exact siblings.first.shallow siblings.plain_left held
      · exact siblings.second.shallow siblings.plain_right held

/-- The two columns ask for the items once each. -/
theorem itemCount_eq {t : Sheet}
    (done : SiblingsDone source options s row left right items t) :
    s.itemCount source = 2 * items.length := by
  have nothing : t.itemCount source = 0 :=
    Sheet.itemCount_eq_zero fun r c text held => siblings.nothing_left done held
  cases done with
  | empty none => rw [nothing, none, List.length_nil]
  | written x y =>
      have second := siblings.lists_after x
      have before := x.itemCount_after (siblings.shallow x.holds)
      have after := y.itemCount_after (second.shallow siblings.plain_right y.holds)
      rw [nothing, second.length_eq y] at after
      rw [siblings.first.length_eq x] at before
      omega

end Siblings

/-- With headroom for the items of both columns the collection pass puts every item into the row of
its number in both if the second column is not blocked where the first goes down. In general it does
so down to some row; from there on the second column stands there alone, and the first has moved
down below it. -/
theorem siblings_together {left right : Nat} {p q : Option String}
    (siblings : Siblings source options s row left right items p q) (report : Report)
    (counting : Counting) (headroom : s.Headroom counting (2 * items.length)) :
    ∃ enough last report', (∀ bound ≥ enough,
        s.walk (Sheet.visitCollections source options false counting) false bound report counting =
          some (.done last report')) ∧
      ∃ together ≤ items.length,
        (together = items.length ↔ s.Clear row left right items.length) ∧
        ∀ i item, items[i]? = some item →
          last.value? (row + i) right = some (itemCell options q item) ∧
          last.value? (if i < together then row + i else row + i + (items.length - together))
            left = some (itemCell options p item) := by
  obtain ⟨enough, last, report', done, plain⟩ := siblings.walk_ends report
  obtain ⟨enough', last', report'', -, ends⟩ := Sheet.walk_collections_ends_of_shallow
    (fun _ _ _ held => siblings.shallow held) report
  have same := ends .endless (s.headroom_endless _) _ (Nat.le_max_right enough enough')
  cases (plain _ (Nat.le_max_left enough enough')).symm.trans same
  rw [siblings.itemCount_eq done] at ends
  refine ⟨enough', last, report', ends counting headroom, ?_⟩
  cases done with
  | empty none =>
      subst none
      refine ⟨0, Nat.le_refl _, iff_of_true rfl fun i _ low => ?_, fun i item at_ => ?_⟩
      · cases low
      · cases at_
  | written x y =>
      refine ⟨y.reach, ?_, siblings.reach_eq_iff x y, fun i item at_ =>
        siblings.value?_after x y at_⟩
      rw [← (siblings.lists_after x).length_eq y]
      exact y.reach_le

def pupil (name age : String) : Value := .mapping [("N", .text name), ("A", .text age)]

/-- Two pupils under one path. -/
def pupils : Source :=
  .ofValue (.mapping [("S", .sequence [pupil "Ann" "1", pupil "Bob" "2"])])

/-- Two columns of pupils above a row of the sheet. -/
def pupilSheet (below : List (Nat × String)) : Sheet :=
  .ofTexts [(0, [(0, "[S.N]"), (1, "[S.A]")]), (1, below)]

theorem pupils_siblings (below : List (Nat × String))
    (others : (pupilSheet below).allTexts (fun row column text =>
      !hasPlaceholder .collection text || row == 0 && (column == 0 || column == 1)) = true)
    (first : (pupilSheet below).text? 0 0 = some "[S.N]")
    (second : (pupilSheet below).text? 0 1 = some "[S.A]") :
    Siblings pupils {} (pupilSheet below) 0 0 1 [pupil "Ann" "1", pupil "Bob" "2"]
      (some "N") (some "A") where
  order := Nat.zero_lt_one
  first :=
    { text := ⟨['S'], some ['N'], by decide, first, by cbv, rfl⟩
      unmerged := rfl }
  second :=
    { text := ⟨['S'], some ['A'], by decide, second, by cbv, rfl⟩
      unmerged := rfl }
  others r c text held collection := by
    have place := Sheet.of_allTexts _ others held
    rw [collection] at place
    simpa using place
  plain item member text same := by
    have names : ∀ name age, itemCell {} (some "N") (pupil name age) = .text name :=
      fun name age => by cbv
    have ages : ∀ name age, itemCell {} (some "A") (pupil name age) = .text age :=
      fun name age => by cbv
    simp only [List.mem_cons, List.not_mem_nil, or_false] at member
    rcases member with rfl | rfl <;> rw [names, ages] at same <;> rcases same with same | same <;>
      cases same <;> decide

/-- A total in the first column is pushed down by it, and the pupils stay together. -/
theorem pupils_together :
    (Siblings pupils {} (pupilSheet [(0, "Total")]) 0 0 1 [pupil "Ann" "1", pupil "Bob" "2"]
        (some "N") (some "A") ∧ (pupilSheet [(0, "Total")]).Headroom .words (2 * 2)) ∧
      ∃ enough last report', (∀ bound ≥ enough,
        (pupilSheet [(0, "Total")]).walk (Sheet.visitCollections pupils {} false .words) false
          bound {} .words = some (.done last report')) ∧
      ∃ together ≤ 2, (together = 2 ↔ (pupilSheet [(0, "Total")]).Clear 0 0 1 2) ∧
        ∀ i item, [pupil "Ann" "1", pupil "Bob" "2"][i]? = some item →
          last.value? (0 + i) 1 = some (itemCell {} (some "A") item) ∧
          last.value? (if i < together then 0 + i else 0 + i + (2 - together)) 0 =
            some (itemCell {} (some "N") item) := by
  have siblings := pupils_siblings [(0, "Total")] (by cbv) (by cbv) (by cbv)
  have headroom : (pupilSheet [(0, "Total")]).Headroom .words (2 * 2) := by decide
  exact ⟨⟨siblings, headroom⟩, siblings_together siblings {} .words headroom⟩

/-- A total in the second column parts the pupils: the second row has an age without a name. -/
theorem pupils_part :
    Siblings pupils {} (pupilSheet [(1, "Total")]) 0 0 1 [pupil "Ann" "1", pupil "Bob" "2"]
        (some "N") (some "A") ∧
      ∃ last report', (pupilSheet [(1, "Total")]).walk
        (Sheet.visitCollections pupils {} false .words) false 3 {} .words =
          some (.done last report') ∧
      last.value? 1 1 = some (itemCell {} (some "A") (pupil "Bob" "2")) ∧
      last.value? 1 0 ≠ some (itemCell {} (some "N") (pupil "Bob" "2")) := by
  refine ⟨pupils_siblings [(1, "Total")] (by cbv) (by cbv) (by cbv),
    (Sheet.ofTexts [(0, [(0, "Ann"), (1, "1")]), (1, [(1, "2")]),
      (2, [(0, "Bob"), (1, "Total")])]).setValue 1 0 .blank,
    { collectionsExpanded := 2, rowsEmitted := 4 }, by cbv, by cbv, ?_⟩
  rw [Sheet.value?_setValue, if_pos ⟨rfl, rfl⟩]
  have name : itemCell {} (some "N") (pupil "Bob" "2") = .text "Bob" := by cbv
  rw [name]
  decide

end Stencil
