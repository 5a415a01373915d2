import Stencil.Proofs.Sheet.Visit

/-! Where an expansion writes into merged regions. Rows that exist and are merged in its column are
pushed down with their regions. Two kinds of region stay in the way: one over a row that does not
exist, since that row is made where it is missing, and one that begins above the first row that is
pushed down, since it grows with the rows that are inserted into it. -/

namespace Stencil

namespace Expanded

variable {source : Source} {options : FillOptions} {s : Sheet} {row column : Nat}
  {counting : Counting}

/-- A row that was used where it is stays in its regions, an inserted row is in those that it was
inserted into. -/
theorem isMerged_written_iff (x : Expanded source options s row column counting) {i : Nat}
    (inside : i < x.items.length) :
    x.after.isMerged (row + i) column = true ↔
      if i < x.reach then s.isMerged (row + i) column = true
      else ∃ region ∈ s.merged, region.firstRow < row + x.reach ∧
        region.contains (row + x.reach) column = true := by
  split
  · rename_i used
    have same := x.isMerged_after (row + i) column
    rw [rowOf, Sparse.moved_of_lt (Nat.add_lt_add_left used row)] at same
    rw [same]
  · rename_i inserted
    rw [Sheet.isMerged, x.merged_after, Sheet.shiftRows, Sheet.wrap_endless, List.any_map,
      List.any_eq_true]
    refine exists_congr fun region => and_congr_right fun _ => ?_
    exact Region.contains_gap_iff (by omega) (by omega)

theorem unmerged_iff (x : Expanded source options s row column counting) :
    (∀ i < x.items.length, x.after.isMerged (row + i) column = false) ↔
      ∀ i < x.items.length, s.Passable row column i → ∀ region ∈ s.merged,
        region.contains (row + i) column = true →
          s.hasRow (row + i) = true ∧ region.firstRow = row + i := by
  constructor
  · intro unmerged i inside passable region member holds
    have here : s.isMerged (row + i) column = true := List.any_eq_true.2 ⟨region, member, holds⟩
    have reached := (x.passable_iff (Nat.le_of_lt inside)).1 passable
    rcases Nat.lt_or_eq_of_le reached with used | rfl
    · -- a row that was used would still be in the region
      have merged := (x.isMerged_written_iff inside).2 (by rwa [if_pos used])
      rw [unmerged i inside] at merged
      cases merged
    · refine ⟨((Expansion.rowState_eq_taken_iff ..).1 (Expansion.taken_at_reach inside)).1, ?_⟩
      by_contra other
      have above : region.firstRow < row + x.reach := by
        simp only [Region.contains, Bool.and_eq_true, decide_eq_true_eq] at holds
        omega
      have merged := (x.isMerged_written_iff inside).2
        (by rw [if_neg (Nat.lt_irrefl _)]; exact ⟨region, member, above, holds⟩)
      rw [unmerged x.reach inside] at merged
      cases merged
  · intro clear i inside
    rw [← Bool.not_eq_true, x.isMerged_written_iff inside]
    split
    · rename_i used
      intro merged
      obtain ⟨region, member, holds⟩ := List.any_eq_true.1 merged
      have passable := (x.passable_iff (Nat.le_of_lt inside)).2 (Nat.le_of_lt used)
      have present := (clear i inside passable region member holds).1
      exact Expansion.not_taken_of_lt_reach used
        ((Expansion.rowState_eq_taken_iff ..).2 ⟨present, .inl merged⟩)
    · rename_i inserted
      rintro ⟨region, member, above, holds⟩
      have short : x.reach < x.items.length := by omega
      have passable := (x.passable_iff (Nat.le_of_lt short)).2 (Nat.le_refl _)
      have begins := (clear x.reach short passable region member holds).2
      omega

end Expanded

/-- Where there is room for its items below the sheet, expanding a cell leaves all cells that it
writes outside of the merged regions exactly if each region over one of them, down to the first row
that is pushed down, begins in the row of that cell and this row exists. -/
theorem expandAt_unmerged_iff {source : Source} {options : FillOptions} {s : Sheet}
    {row column : Nat} {template : String} {use : CollectionUse} {items : List Value}
    {counting : Counting} (holds : s.text? row column = some template)
    (first : firstCollection? template = some use)
    (found : source.items? use.collection = some items) (room : s.Room counting items.length) :
    ∃ next outcome,
      Sheet.expandAt source options false s row column counting = .done next outcome ∧
      ((∀ i < items.length, next.isMerged (row + i) column = false) ↔
        ∀ i < items.length, s.Passable row column i → ∀ region ∈ s.merged,
          region.contains (row + i) column = true →
            s.hasRow (row + i) = true ∧ region.firstRow = row + i) := by
  by_cases empty : items = []
  · subst empty
    refine ⟨s, _, Sheet.expandAt_of_empty counting holds first found, ?_⟩
    exact iff_of_true (fun i none => by cases none) (fun i none => by cases none)
  · obtain ⟨x, rfl, rfl, rfl, ran⟩ := Sheet.exists_expanded options holds first found empty room
    exact ⟨x.after, x.outcome, ran, x.unmerged_iff⟩

def visitors : Source :=
  .ofValue (.mapping [("Name", .sequence [.text "Ann", .text "Bob", .text "Cid"])])

/-- A list of visitors above a merged row of seats. -/
def seatSheet : Sheet :=
  { Sheet.ofTexts [(0, [(0, "[Name]")]), (1, [(1, "Seats")])] with merged := [⟨1, 1, 0, 1⟩] }

/-- A list of visitors above a merged region in which there is no row. -/
def gapSheet : Sheet := { Sheet.ofTexts [(0, [(0, "[Name]")])] with merged := [⟨1, 1, 0, 0⟩] }

/-- A list of visitors in the second row of a merged region. -/
def innerSheet : Sheet :=
  { Sheet.ofTexts [(0, []), (1, [(0, "[Name]")])] with merged := [⟨0, 1, 0, 0⟩] }

/-- A list of visitors on a sheet with a merged region in the last row that there can be. -/
def lastRegionSheet : Sheet :=
  { Sheet.ofTexts [(0, [(0, "[Name]")]), (1, [(0, "Seats")])] with
    merged := [⟨UInt64.size - 1, UInt64.size - 1, 0, 0⟩] }

/-- The row of seats is pushed down with its region, and the visitors stand above it. -/
theorem visitors_unmerged :
    (seatSheet.text? 0 0 = some "[Name]" ∧
      firstCollection? "[Name]" = some ⟨"Name", none, 0, 6⟩ ∧
      visitors.items? "Name" = some [.text "Ann", .text "Bob", .text "Cid"] ∧
      seatSheet.Room .words 3) ∧
    ∃ next outcome, Sheet.expandAt visitors {} false seatSheet 0 0 .words = .done next outcome ∧
      ∀ i < 3, next.isMerged (0 + i) 0 = false := by
  have holds : seatSheet.text? 0 0 = some "[Name]" := by cbv
  have first : firstCollection? "[Name]" = some ⟨"Name", none, 0, 6⟩ := by cbv
  have found : visitors.items? "Name" = some [.text "Ann", .text "Bob", .text "Cid"] := by cbv
  have room : seatSheet.Room .words 3 := by decide
  obtain ⟨next, outcome, ran, unmerged⟩ := expandAt_unmerged_iff holds first found room
  refine ⟨⟨holds, first, found, room⟩, next, outcome, ran, unmerged.2 ?_⟩
  intro i _ _ region member inside
  rw [seatSheet, List.mem_singleton] at member
  subst member
  have second : i = 1 := by
    simp only [Region.contains, Bool.and_eq_true, decide_eq_true_eq] at inside
    omega
  subst second
  exact ⟨by cbv, rfl⟩

/-- The second visitor comes to stand in a merged cell, since there was no row for it before. If the
list begins inside of a region, that region grows with it, and the visitors stand in it. A region
that is pushed down past the last row comes round to the first. -/
theorem visitors_in_merged :
    visitors.asked? "[Name]" = some [.text "Ann", .text "Bob", .text "Cid"] ∧
    (gapSheet.text? 0 0 = some "[Name]" ∧
      ∃ next, Sheet.expandAt visitors {} false gapSheet 0 0 .words =
          .done next { expanded := 1, rowsEmitted := 3 } ∧
        next.value? 1 0 = some (.text "Bob") ∧ next.isMerged 1 0 = true) ∧
    (innerSheet.text? 1 0 = some "[Name]" ∧
      ∃ next, Sheet.expandAt visitors {} false innerSheet 1 0 .words =
          .done next { expanded := 1, rowsEmitted := 3 } ∧
        next.value? 1 0 = some (.text "Ann") ∧ next.isMerged 1 0 = true) ∧
    (lastRegionSheet.text? 0 0 = some "[Name]" ∧
      ∃ next, Sheet.expandAt visitors {} false lastRegionSheet 0 0 .words =
          .done next { expanded := 1, rowsEmitted := 3 } ∧
        next.value? 0 0 = some (.text "Ann") ∧ next.isMerged 0 0 = true) := by
  refine ⟨by cbv,
    ⟨by cbv, (Sheet.expandAt visitors {} false gapSheet 0 0 .words).target, ?_, ?_, ?_⟩,
    ⟨by cbv, (Sheet.expandAt visitors {} false innerSheet 1 0 .words).target, ?_, ?_, ?_⟩,
    ⟨by cbv, (Sheet.expandAt visitors {} false lastRegionSheet 0 0 .words).target, ?_, ?_, ?_⟩⟩ <;>
      cbv

end Stencil
