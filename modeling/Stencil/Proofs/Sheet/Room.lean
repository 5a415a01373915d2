import Stencil.Proofs.Sheet.Expansion

/-! Room below a sheet. Where all rows and regions can go down by the number of items that are still
to be written, no number comes round to zero, and an expansion in machine words does what it does
in the counting without an end. -/

namespace Stencil

namespace Counting

/-- A number that is there in the counting. -/
def Counts (c : Counting) (n : Nat) : Prop := c.wrap n = n

instance (c : Counting) (n : Nat) : Decidable (c.Counts n) := inferInstanceAs (Decidable (_ = _))

theorem counts_words_iff {n : Nat} : words.Counts n ↔ n < UInt64.size :=
  ⟨fun same => same ▸ Nat.mod_lt n (by decide), Nat.mod_eq_of_lt⟩

theorem counts_endless (n : Nat) : endless.Counts n := rfl

theorem Counts.mono {c : Counting} {m n : Nat} (counts : c.Counts n) (le : m ≤ n) :
    c.Counts m := by
  cases c with
  | words => exact counts_words_iff.2 (Nat.lt_of_le_of_lt le (counts_words_iff.1 counts))
  | endless => exact counts_endless m

end Counting

namespace Sheet

/-- All rows and merged regions of a sheet can go down by `count`. -/
structure Room (c : Counting) (s : Sheet) (count : Nat) : Prop where
  rows : ∀ row, s.hasRow row = true → c.Counts (row + count)
  regions : ∀ region ∈ s.merged,
    c.Counts (region.firstRow + count) ∧ c.Counts (region.lastRow + count)

theorem room_iff {c : Counting} {s : Sheet} {count : Nat} :
    s.Room c count ↔ (∀ e ∈ s.rows.entries, c.Counts (e.1 + count)) ∧
      ∀ region ∈ s.merged,
        c.Counts (region.firstRow + count) ∧ c.Counts (region.lastRow + count) := by
  constructor
  · rintro ⟨rows, regions⟩
    exact ⟨fun e member => rows e.1 ((Sparse.contains_iff_mem ..).2 ⟨e.2, member⟩), regions⟩
  · rintro ⟨rows, regions⟩
    refine ⟨fun row present => ?_, regions⟩
    obtain ⟨cells, member⟩ := (Sparse.contains_iff_mem ..).1 present
    exact rows _ member

instance (c : Counting) (s : Sheet) (count : Nat) : Decidable (s.Room c count) :=
  decidable_of_iff _ room_iff.symm

theorem room_endless (s : Sheet) (count : Nat) : s.Room .endless count :=
  ⟨fun _ _ => Counting.counts_endless _, fun _ _ => ⟨rfl, rfl⟩⟩

namespace Room

variable {c : Counting} {s t : Sheet} {count less : Nat}

theorem mono (room : s.Room c count) (le : less ≤ count) : s.Room c less where
  rows row present := (room.rows row present).mono (by omega)
  regions region member :=
    ⟨(room.regions region member).1.mono (by omega), (room.regions region member).2.mono (by omega)⟩

end Room

theorem wrap_eq_self {c : Counting} {s : Sheet} (room : s.Room c 0) : s.wrap c = s := by
  cases c with
  | endless => rfl
  | words =>
      have rows : s.rows.renumber Counting.words.wrap = s.rows :=
        Sparse.renumber_of_fixed fun e member => (room_iff.1 room).1 e member
      have regions : s.merged.map (Region.wrap .words) = s.merged := by
        conv_rhs => rw [← List.map_id s.merged]
        apply List.map_congr_left
        intro region member
        have first : Counting.words.wrap region.firstRow = region.firstRow :=
          (room.regions region member).1
        have last : Counting.words.wrap region.lastRow = region.lastRow :=
          (room.regions region member).2
        rw [Region.wrap, first, last, id]
      rw [wrap, rows, regions]

/-- Rows that are shifted lose as much of the room below them as they go down. -/
theorem room_shiftRows {c : Counting} {s : Sheet} {start more count : Nat}
    (room : s.Room c (more + count)) : (s.shiftRows start more).Room c count where
  rows row present := by
    rw [hasRow_eq_isSome, row_shiftRows] at present
    split at present
    · exact (room.rows row present).mono (by omega)
    · split at present
      · cases present
      · exact (room.rows (row - more) present).mono (by omega)
  regions region member := by
    rw [shiftRows, wrap_endless, List.mem_map] at member
    obtain ⟨before, inside, rfl⟩ := member
    obtain ⟨first, last⟩ := room.regions before inside
    obtain ⟨low, high⟩ := before.shift_le start more
    exact ⟨first.mono (by omega), last.mono (by omega)⟩

theorem shiftRows_counted {c : Counting} {s : Sheet} {count : Nat} (room : s.Room c count)
    (start : Nat) : s.shiftRows start count c = s.shiftRows start count :=
  wrap_eq_self (room_shiftRows room)

/-! ### Columns -/

/-- No cell of a row is in the last column that there can be. -/
def Narrow (c : Counting) (s : Sheet) (row : Nat) : Prop :=
  ∀ column cell, s.cell? row column = some cell → c.Counts (column + 1)

theorem narrow_iff {c : Counting} {s : Sheet} {row : Nat} :
    s.Narrow c row ↔
      ∀ e ∈ ((s.rows.get? row).getD .empty).entries, c.Counts (e.1 + 1) := by
  unfold Narrow cell?
  cases s.rows.get? row with
  | none => exact iff_of_true (fun _ _ held => nomatch held) (fun _ member => nomatch member)
  | some cells =>
      simp only [Option.bind_some, Option.getD_some, Sparse.get?_eq_some_iff]
      exact ⟨fun narrow e => narrow e.1 e.2, fun narrow column cell => narrow (column, cell)⟩

instance (c : Counting) (s : Sheet) (row : Nat) : Decidable (s.Narrow c row) :=
  decidable_of_iff _ narrow_iff.symm

theorem narrow_endless (s : Sheet) (row : Nat) : s.Narrow .endless row :=
  fun _ _ _ => Counting.counts_endless _

theorem columns_counted {c : Counting} {s : Sheet} {row : Nat} (narrow : s.Narrow c row) :
    s.columns row c = s.columns row := by
  have bounds : s.columnBounds row c = s.columnBounds row := by
    unfold columnBounds
    cases present : s.rows.get? row with
    | none => rfl
    | some cells =>
        dsimp only
        cases last : cells.lastIndex? with
        | none => cases cells.firstIndex? <;> rfl
        | some top =>
            obtain ⟨cell, held⟩ := Option.isSome_iff_exists.1
              ((Sparse.lastIndex?_eq_some_iff ..).1 last).1
            have counts : c.Counts (top + 1) :=
              narrow top cell (Option.bind_eq_some_iff.2 ⟨cells, present, held⟩)
            cases cells.firstIndex? with
            | none => rfl
            | some first => exact congrArg (Prod.mk first) counts
  rw [columns, bounds, columns]

theorem rowStyles_counted {c : Counting} {s : Sheet} {row : Nat} (narrow : s.Narrow c row) :
    s.rowStyles row c = s.rowStyles row := by
  rw [rowStyles, columns_counted narrow, rowStyles]

/-- A walk over a sheet that emits `count` rows comes to no number that is not there. -/
structure Headroom (c : Counting) (s : Sheet) (count : Nat) : Prop where
  rows : ∀ row, s.hasRow row = true → c.Counts (row + count + 1)
  columns : ∀ row, s.Narrow c row
  regions : ∀ region ∈ s.merged,
    c.Counts (region.firstRow + count) ∧ c.Counts (region.lastRow + count)

theorem headroom_iff {c : Counting} {s : Sheet} {count : Nat} :
    s.Headroom c count ↔
      (∀ e ∈ s.rows.entries, c.Counts (e.1 + count + 1) ∧
        ∀ cell ∈ e.2.entries, c.Counts (cell.1 + 1)) ∧
      ∀ region ∈ s.merged,
        c.Counts (region.firstRow + count) ∧ c.Counts (region.lastRow + count) := by
  constructor
  · rintro ⟨rows, columns, regions⟩
    refine ⟨fun e member => ⟨?_, ?_⟩, regions⟩
    · exact rows e.1 ((Sparse.contains_iff_mem ..).2 ⟨e.2, member⟩)
    · have narrow := narrow_iff.1 (columns e.1)
      rwa [(Sparse.get?_eq_some_iff ..).2 member] at narrow
  · rintro ⟨rows, regions⟩
    refine ⟨fun row present => ?_, fun row => narrow_iff.2 ?_, regions⟩
    · obtain ⟨cells, member⟩ := (Sparse.contains_iff_mem ..).1 present
      exact (rows _ member).1
    · cases present : s.rows.get? row with
      | none => exact fun _ member => nomatch member
      | some cells => exact (rows _ ((Sparse.get?_eq_some_iff ..).1 present)).2

instance (c : Counting) (s : Sheet) (count : Nat) : Decidable (s.Headroom c count) :=
  decidable_of_iff _ headroom_iff.symm

theorem headroom_endless (s : Sheet) (count : Nat) : s.Headroom .endless count :=
  ⟨fun _ _ => Counting.counts_endless _, s.narrow_endless, fun _ _ => ⟨rfl, rfl⟩⟩

theorem Headroom.room {c : Counting} {s : Sheet} {count : Nat} (headroom : s.Headroom c count) :
    s.Room c count where
  rows row present := (headroom.rows row present).mono (Nat.le_succ _)
  regions := headroom.regions

end Sheet

/-! ### Expansions -/

namespace Expansion

variable {c : Counting} {e : Expansion} {options : FillOptions} {offset count : Nat} {item : Value}
  {st : Emission}

theorem prepare_counted (room : st.sheet.Room c 1) (target : c.Counts (e.anchor + offset))
    (template : c.Counts (st.templateRow + 1)) : e.prepare offset st c = e.prepare offset st := by
  have state : e.rowState st.sheet offset c = e.rowState st.sheet offset := by
    unfold rowState
    rw [target, Counting.wrap_endless]
  rw [prepare, prepare, state, target, template, Sheet.shiftRows_counted room]
  rfl

theorem writeItem_counted (room : st.sheet.Room c 1) (target : c.Counts (e.anchor + offset))
    (template : c.Counts (st.templateRow + 1)) :
    e.writeItem options offset item st c = e.writeItem options offset item st := by
  rw [writeItem, writeItem, prepare_counted room target template, target, Counting.wrap_endless]

/-- An item takes one row of the room at most. -/
theorem room_writeItem (room : st.sheet.Room c (count + 1))
    (target : c.Counts (e.anchor + offset + count)) :
    (e.writeItem options offset item st).sheet.Room c count where
  rows row present := by
    rw [Sheet.hasRow_eq_isSome] at present
    by_cases taken : e.rowState st.sheet offset = .taken
    · rw [row_writeItem_of_taken taken] at present
      split at present
      · exact (room.rows row present).mono (by omega)
      · split at present
        · rename_i same
          exact same ▸ target
        · exact (room.rows (row - 1) present).mono (by omega)
    · rw [row_writeItem_of_not_taken taken] at present
      split at present
      · rename_i same
        exact same ▸ target
      · exact (room.rows row present).mono (by omega)
  regions := by
    rw [merged_writeItem]
    split
    · exact (Sheet.room_shiftRows (room.mono (Nat.le_of_eq (Nat.add_comm 1 count)))).regions
    · exact (room.mono (Nat.le_succ count)).regions

theorem templateRow_writeItem_le (e : Expansion) (options : FillOptions) (offset : Nat)
    (item : Value) (st : Emission) :
    (e.writeItem options offset item st).templateRow ≤ st.templateRow + 1 := by
  rw [templateRow_writeItem]
  split <;> omega

/-- With room for all items it does not show how the rows are counted. -/
theorem writeItems_counted {items : List Value} (room : st.sheet.Room c items.length)
    (target : c.Counts (e.anchor + offset + items.length))
    (template : c.Counts (st.templateRow + items.length)) :
    e.writeItems options false offset items st c = e.writeItems options false offset items st := by
  induction items generalizing offset st with
  | nil => rfl
  | cons item rest ih =>
      rw [List.length_cons] at room target template
      have low := e.templateRow_writeItem_le options offset item st
      rw [writeItems, writeItems, if_neg Bool.false_ne_true, if_neg Bool.false_ne_true,
        writeItem_counted (room.mono (by omega)) (target.mono (by omega))
          (template.mono (by omega))]
      exact ih (room_writeItem room (target.mono (by omega))) (target.mono (by omega))
        (template.mono (by omega))

end Expansion

end Stencil
