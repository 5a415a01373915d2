import Stencil.Proofs.Document.ClosedForm

/-! Which rows an expanded table keeps. A template row is expanded in its place and every other row
that is reached stays as it is, all in their order. The rows that are not reached are free ones
right behind a template row: its copies take their place. -/

namespace Stencil

namespace TableRow

variable (source : Source)

/-- What an expansion makes of a row that it reaches. -/
def expanded (options : FillOptions) (row : TableRow) : List TableRow :=
  if row.isTemplate source then row.copies source options else [row]

/-- How many of the rows behind a row are free for its copies. -/
def freed (row : TableRow) (rest : List TableRow) : Nat :=
  (rest.take (row.longest source)).findIdx (holdsBelow source row)

variable {source}

theorem longest_of_plain {row : TableRow} (plain : row.isTemplate source = false) :
    row.longest source = 0 := by
  have none : row.itemLists source = [] := by
    rw [isTemplate, List.any_eq_false] at plain
    rw [itemLists, List.filterMap_eq_nil_iff]
    intro cell member
    rw [Option.map_eq_none_iff, ← Option.not_isSome_iff_eq_none]
    exact plain cell member
  rw [longest, none, List.map_nil, List.foldr_nil]

theorem spared_eq_drop (row : TableRow) (rest : List TableRow) :
    row.spared source rest = rest.drop (row.freed source rest) := by
  have inside : row.freed source rest ≤ (rest.take (row.longest source)).length :=
    List.findIdx_le_length
  rw [spared, List.dropWhile_eq_drop_findIdx_not]
  simp only [Bool.not_not]
  change (rest.take _).drop (row.freed source rest) ++ _ = _
  rw [← List.drop_append_of_le_length inside, List.take_append_drop]

theorem freed_of_plain {row : TableRow} (plain : row.isTemplate source = false)
    (rest : List TableRow) : row.freed source rest = 0 := by
  rw [freed, longest_of_plain plain, List.take_zero, List.findIdx_nil]

theorem lt_freed_iff {row : TableRow} {rest : List TableRow} {place : Nat} :
    place < row.freed source rest ↔
      place < row.longest source ∧ place < rest.length ∧
        ∀ i ≤ place, ∀ below, rest[i]? = some below → row.holdsBelow source below = false := by
  rw [freed, List.findIdx_take, Nat.lt_min, List.lt_findIdx_iff]
  refine and_congr_right fun _ => ⟨?_, ?_⟩
  · rintro ⟨inside, free⟩
    refine ⟨inside, fun i low below at_ => ?_⟩
    obtain ⟨_, rfl⟩ := List.getElem?_eq_some_iff.1 at_
    exact free i low
  · rintro ⟨inside, free⟩
    exact ⟨inside, fun i low => free i low _ (List.getElem?_eq_getElem _)⟩

end TableRow

namespace Table

variable (source : Source)

/-- The row at `place` gives way to a copy of the row at `template`, which is above it and has items
for it. None of the rows from there down to it holds something below the cells that name items. -/
def GivesWay (rows : List TableRow) (template place : Nat) : Prop :=
  template < place ∧ ∃ row, rows[template]? = some row ∧
    place ≤ template + row.longest source ∧
    ∀ i, template < i → i ≤ place → ∀ below, rows[i]? = some below →
      row.holdsBelow source below = false

/-- The places of the rows that an expansion reaches, from a place on. -/
def keptFrom (start : Nat) : List TableRow → List Nat
  | [] => []
  | row :: rest =>
      start :: keptFrom (start + 1 + row.freed source rest) (rest.drop (row.freed source rest))
termination_by rows => rows.length
decreasing_by
  rw [List.length_drop, List.length_cons]
  omega

theorem closedForm_cons (options : FillOptions) (row : TableRow) (rest : List TableRow) :
    closedForm source options (row :: rest) =
      row.expanded source options ++
        closedForm source options (rest.drop (row.freed source rest)) := by
  rw [closedForm, TableRow.expanded]
  cases names : row.isTemplate source with
  | true => rw [if_pos rfl, if_pos rfl, TableRow.spared_eq_drop]
  | false =>
      rw [if_neg Bool.false_ne_true, if_neg Bool.false_ne_true, TableRow.freed_of_plain names,
        List.drop_zero, List.singleton_append]

variable {source} {rows rest : List TableRow} {row : TableRow} {start : Nat}

/-- The rows that give way to a row are the ones behind it that are free for its copies. -/
theorem givesWay_iff {place : Nat} (at_ : rows[start]? = some row) (inside : place < rows.length) :
    GivesWay source rows start place ↔
      start < place ∧ place ≤ start + row.freed source (rows.drop (start + 1)) := by
  refine and_congr_right fun below => ?_
  obtain ⟨i, rfl⟩ : ∃ i, place = start + 1 + i := ⟨place - (start + 1), by omega⟩
  have freed : start + 1 + i ≤ start + row.freed source (rows.drop (start + 1)) ↔
      i < row.freed source (rows.drop (start + 1)) := by omega
  rw [freed, TableRow.lt_freed_iff, List.length_drop]
  simp only [List.getElem?_drop]
  constructor
  · rintro ⟨same, found, items, free⟩
    rw [at_, Option.some.injEq] at found
    subst found
    exact ⟨by omega, by omega, fun k low below here => free _ (by omega) (by omega) below here⟩
  · rintro ⟨items, -, free⟩
    refine ⟨row, at_, by omega, fun k above low below here => ?_⟩
    refine free (k - (start + 1)) (by omega) below ?_
    rwa [Nat.add_sub_cancel' above]

private theorem of_drop_eq_cons (there : rows.drop start = row :: rest) :
    rows[start]? = some row ∧ start < rows.length ∧
      ∀ count, rows.drop (start + 1 + count) = rest.drop count := by
  refine ⟨?_, ?_, fun count => ?_⟩
  · rw [← List.head?_drop, there, List.head?_cons]
  · by_contra high
    rw [List.drop_eq_nil_of_le (Nat.le_of_not_lt high)] at there
    cases there
  · rw [← List.drop_drop, ← List.drop_drop, there, List.drop_one, List.tail_cons]

theorem mem_keptFrom_bounds {suffix : List TableRow} (there : rows.drop start = suffix) :
    ∀ place ∈ keptFrom source start suffix, start ≤ place ∧ place < rows.length := by
  fun_induction keptFrom source start suffix with
  | case1 => exact fun _ nowhere => by cases nowhere
  | case2 start row rest ih =>
      obtain ⟨-, inside, behind⟩ := of_drop_eq_cons there
      intro place member
      rcases List.mem_cons.1 member with rfl | later
      · exact ⟨Nat.le_refl _, inside⟩
      · have bounds := ih (behind _) place later
        omega

theorem keptFrom_ascending {suffix : List TableRow} (there : rows.drop start = suffix) :
    (keptFrom source start suffix).Pairwise (· < ·) := by
  fun_induction keptFrom source start suffix with
  | case1 => exact List.Pairwise.nil
  | case2 start row rest ih =>
      obtain ⟨-, -, behind⟩ := of_drop_eq_cons there
      refine List.pairwise_cons.2 ⟨fun place later => ?_, ih (behind _)⟩
      have bounds := mem_keptFrom_bounds (behind _) place later
      omega

theorem closedForm_eq_flatMap (options : FillOptions) {suffix : List TableRow}
    (there : rows.drop start = suffix) :
    closedForm source options suffix =
      (keptFrom source start suffix).flatMap fun place =>
        (rows[place]?).elim [] (TableRow.expanded source options) := by
  fun_induction keptFrom source start suffix with
  | case1 => rw [closedForm, List.flatMap_nil]
  | case2 start row rest ih =>
      obtain ⟨here, -, behind⟩ := of_drop_eq_cons there
      rw [closedForm_cons, List.flatMap_cons, here, Option.elim_some, ih (behind _)]

/-- A row is reached unless it gives way to one that is. -/
theorem mem_keptFrom_iff {suffix : List TableRow} (there : rows.drop start = suffix) {place : Nat}
    (low : start ≤ place) (inside : place < rows.length) :
    place ∈ keptFrom source start suffix ↔
      ∀ template ∈ keptFrom source start suffix, ¬GivesWay source rows template place := by
  fun_induction keptFrom source start suffix with
  | case1 =>
      rw [List.drop_eq_nil_iff] at there
      omega
  | case2 start row rest ih =>
      obtain ⟨here, -, behind⟩ := of_drop_eq_cons there
      have next := behind (row.freed source rest)
      have way : GivesWay source rows start place ↔
          start < place ∧ place ≤ start + row.freed source rest := by
        rw [givesWay_iff here inside, ← List.drop_zero (l := rest), ← behind, Nat.add_zero]
      rw [List.mem_cons, List.forall_mem_cons, way]
      by_cases skipped : start < place ∧ place ≤ start + row.freed source rest
      · refine iff_of_false ?_ fun both => both.1 skipped
        rintro (rfl | later)
        · omega
        · have bounds := mem_keptFrom_bounds next place later
          omega
      · rcases Nat.eq_or_lt_of_le low with rfl | above
        · refine iff_of_true (.inl rfl) ⟨skipped, fun template later way => ?_⟩
          have bounds := mem_keptFrom_bounds next template later
          exact absurd way.1 (by omega)
        · rw [← ih next (by omega), and_iff_right skipped, or_iff_right (by omega)]

/-- A table that is expanded keeps its rows in their order, the template rows expanded and all
others as they were, except for those that give way to a template row that is kept. -/
theorem expand_keeps (source : Source) (options : FillOptions) (t : Table) :
    ∃ (kept : List Nat) (outcome : Outcome),
      t.expand source options false =
        .done
          ⟨kept.flatMap fun place => (t.rows[place]?).elim [] (TableRow.expanded source options)⟩
          outcome ∧
      kept.Pairwise (· < ·) ∧ (∀ place ∈ kept, place < t.rows.length) ∧
      ∀ place < t.rows.length,
        place ∈ kept ↔ ∀ template ∈ kept, ¬GivesWay source t.rows template place := by
  obtain ⟨outcome, ran, -⟩ := expand_closedForm source options t
  have whole : t.rows.drop 0 = t.rows := List.drop_zero
  refine ⟨keptFrom source 0 t.rows, outcome, ?_, keptFrom_ascending whole,
    fun place member => (mem_keptFrom_bounds whole place member).2,
    fun place inside => mem_keptFrom_iff whole (Nat.zero_le _) inside⟩
  rw [ran, closedForm_eq_flatMap options whole]

def guestList : Source := .ofValue (.mapping [("Guest", .sequence [.text "Ann"])])

/-- Below the column of the guests the row of the total is empty, so that it gives way to the only
guest, and its text is lost. -/
theorem total_gives_way :
    (TableRow.ofTexts ["", "Total"]).isTemplate guestList = false ∧
    ((TableRow.ofTexts ["", "Total"]).cells[1]?).any TableCell.isOccupied = true ∧
    TableRow.ofTexts ["", "Total"] ∉ [TableRow.ofTexts ["Ann", ""]] ∧
    (Table.mk [.ofTexts ["[Guest]", ""], .ofTexts ["", "Total"]]).expand guestList {} false =
      .done ⟨[.ofTexts ["Ann", ""]]⟩ { expanded := 1, rowsEmitted := 1 } := by
  refine ⟨by cbv, by cbv, by decide, ?_⟩
  cbv

end Table

end Stencil
