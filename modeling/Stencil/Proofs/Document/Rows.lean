import Stencil.Proofs.Paragraph.Exchange

/-! The rows that the expansion of a table comes to. What is above the template row is final, the
rows written below it stand in order, and of the rows behind them those that are free in the
columns have given way. Seen in this way no step fails, and neither loop is cut short. -/

namespace Stencil

/-! ### One row -/

namespace TableRow

/-- The row with texts in the place of the first placeholders of some cells. -/
def filledWith (row : TableRow) (values : List (Nat × String)) : TableRow :=
  (substituteAll values row).target

theorem substituteAll_eq (values : List (Nat × String)) (row : TableRow) :
    substituteAll values row = .done (row.filledWith values) () := by
  have completes : ∃ filled, substituteAll values row = .done filled () := by
    induction values generalizing row with
    | nil => exact ⟨row, rfl⟩
    | cons head rest ih =>
        obtain ⟨column, value⟩ := head
        rw [substituteAll]
        cases row.cells[column]? with
        | none => exact ih row
        | some cell =>
            dsimp only
            rw [cell.substituteFirst_eq]
            exact ih _
  obtain ⟨filled, ran⟩ := completes
  rw [filledWith, ran]
  rfl

/-- What is left of the rows below when rows were written over them: free ones give way, one for
each that is written, up to the first that is occupied. -/
def leftAfter (columns : List Nat) : Nat → List TableRow → List TableRow
  | 0, rows => rows
  | _ + 1, [] => []
  | count + 1, row :: rest =>
      if row.isOccupied columns then row :: rest else leftAfter columns count rest

variable {columns : List Nat} {row : TableRow} {rest : List TableRow}

theorem leftAfter_nil (columns : List Nat) (count : Nat) : leftAfter columns count [] = [] := by
  cases count <;> rfl

theorem leftAfter_of_occupied (occupied : row.isOccupied columns = true) (count : Nat) :
    leftAfter columns count (row :: rest) = row :: rest := by
  cases count with
  | zero => rfl
  | succ count => rw [leftAfter, if_pos occupied]

theorem leftAfter_of_free (free : row.isOccupied columns = false) (count : Nat) :
    leftAfter columns (count + 1) (row :: rest) = leftAfter columns count rest := by
  rw [leftAfter, free, if_neg Bool.false_ne_true]

theorem leftAfter_succ (columns : List Nat) (count : Nat) (rows : List TableRow) :
    leftAfter columns (count + 1) rows = leftAfter columns count (leftAfter columns 1 rows) := by
  cases rows with
  | nil => rw [leftAfter_nil, leftAfter_nil, leftAfter_nil]
  | cons row rest =>
      cases occupied : row.isOccupied columns with
      | true => simp only [leftAfter_of_occupied occupied]
      | false => rw [leftAfter_of_free occupied, leftAfter_of_free occupied, leftAfter]

theorem length_leftAfter_le (columns : List Nat) (count : Nat) (rows : List TableRow) :
    (leftAfter columns count rows).length ≤ rows.length := by
  induction count generalizing rows with
  | zero => exact Nat.le_refl _
  | succ count ih =>
      cases rows with
      | nil => exact Nat.le_refl _
      | cons row rest =>
          cases occupied : row.isOccupied columns with
          | true => exact Nat.le_of_eq (congrArg _ (leftAfter_of_occupied occupied _))
          | false =>
              rw [leftAfter_of_free occupied]
              exact Nat.le_succ_of_le (ih rest)

end TableRow

/-! ### Generations -/

namespace ColumnCursor

variable {options : FillOptions} {cursors next : List ColumnCursor} {values : List String}

/-- The rows of texts that the columns go through, and the columns after that. -/
def generations (options : FillOptions) :
    Nat → List ColumnCursor → List (List String) × List ColumnCursor
  | 0, cursors => ([], cursors)
  | steps + 1, cursors =>
      match generation? options cursors with
      | none => ([], cursors)
      | some (values, next) =>
          let (later, last) := generations options steps next
          (values :: later, last)

theorem longest_le_iff {most : Nat} :
    longest cursors ≤ most ↔ ∀ cursor ∈ cursors, cursor.pending.length ≤ most := by
  have above : ∀ start, cursors.foldl (fun most cursor => max most cursor.pending.length) start ≤
      most ↔ start ≤ most ∧ ∀ cursor ∈ cursors, cursor.pending.length ≤ most := by
    induction cursors with
    | nil => simp
    | cons cursor rest ih =>
        intro start
        rw [List.foldl_cons, ih, List.forall_mem_cons, Nat.max_le, and_assoc]
  rw [longest, above]
  simp

theorem pending_advance (options : FillOptions) (cursor : ColumnCursor) :
    (cursor.advance options).2.pending = cursor.pending.tail := by
  unfold advance
  split
  · rename_i exhausted
    rw [exhausted]
    rfl
  · rename_i more
    rw [more]
    split <;> rfl

theorem isNone_advance (options : FillOptions) (cursor : ColumnCursor) :
    (cursor.advance options).1.isNone = cursor.pending.isEmpty := by
  unfold advance
  split
  · rename_i exhausted
    rw [exhausted]
    rfl
  · rename_i more
    rw [more]
    split <;> rfl

/-- There is no further row of texts if all columns are exhausted. -/
theorem generation?_eq_none_iff :
    generation? options cursors = none ↔ ∀ cursor ∈ cursors, cursor.pending = [] := by
  unfold generation?
  simp only [ite_eq_left_iff, reduceCtorEq, imp_false, Decidable.not_not, List.all_map,
    List.all_eq_true, Function.comp_apply, isNone_advance, List.isEmpty_iff]

/-- A row of texts takes one item from every column that has some left. -/
theorem longest_generation? (found : generation? options cursors = some (values, next)) {most : Nat}
    (le : longest cursors ≤ most + 1) : longest next ≤ most := by
  unfold generation? at found
  dsimp only at found
  split at found
  · cases found
  · cases found
    rw [longest_le_iff] at le ⊢
    intro cursor member
    simp only [List.map_map, List.mem_map, Function.comp_apply] at member
    obtain ⟨before, inside, rfl⟩ := member
    have short := le before inside
    rw [pending_advance, List.length_tail]
    omega

theorem generation?_of_longest (exhausted : longest cursors ≤ 0) :
    generation? options cursors = none := by
  rw [generation?_eq_none_iff]
  intro cursor member
  exact List.length_eq_zero_iff.1 (Nat.le_zero.1 (longest_le_iff.1 exhausted cursor member))

end ColumnCursor

namespace Table

variable {options : FillOptions}

/-- Writing the rows goes on for as long as a column has items: more steps make no difference. -/
theorem emitRows_of_longest_le {cancelled : Bool} {template : Nat} {columns : List Nat}
    {steps more : Nat} {cursors : List ColumnCursor} (enough : ColumnCursor.longest cursors ≤ steps)
    (le : steps ≤ more) (emitted : Nat) (t : Table) :
    emitRows options cancelled template columns more cursors emitted t =
      emitRows options cancelled template columns steps cursors emitted t := by
  induction more generalizing steps cursors emitted t with
  | zero => rw [Nat.le_zero.1 le]
  | succ more ih =>
      cases steps with
      | zero => rw [emitRows, emitRows, ColumnCursor.generation?_of_longest enough]
      | succ steps =>
          rw [emitRows, emitRows]
          cases found : ColumnCursor.generation? options cursors with
          | none => rfl
          | some generation =>
              obtain ⟨values, next⟩ := generation
              dsimp only
              have shorter := ColumnCursor.longest_generation? found enough
              simp only [ih shorter (Nat.le_of_succ_le_succ le)]

private theorem getElem?_middle (before behind : List TableRow) (row : TableRow) :
    (before ++ row :: behind)[before.length]? = some row := by
  rw [List.getElem?_append_right (Nat.le_refl _), Nat.sub_self, List.getElem?_cons_zero]

private theorem insertIdx_middle (before behind : List TableRow) (row : TableRow) :
    (before ++ behind).insertIdx before.length row = before ++ row :: behind := by
  induction before with
  | nil => exact List.insertIdx_zero
  | cons first rest ih =>
      rw [List.cons_append, List.length_cons, List.insertIdx_succ_cons, ih, List.cons_append]

private theorem removeRow_middle (before behind : List TableRow) (row : TableRow) :
    removeRow ⟨before ++ row :: behind⟩ before.length = .ok ⟨before ++ behind⟩ := by
  rw [removeRow, if_pos (by simp), List.eraseIdx_append_of_length_le (Nat.le_refl _), Nat.sub_self]
  rfl

/-- A row is written as a copy of the template row that is filled with the texts. -/
theorem emitRow_eq (columns : List Nat) (values : List String)
    (front written behind : List TableRow) (row : TableRow) {target : Nat}
    (place : target = front.length + 1 + written.length) :
    emitRow ⟨front ++ row :: (written ++ behind)⟩ front.length target columns values =
      .done ⟨front ++ row :: (written ++ row.filledWith (columns.zip values) ::
        TableRow.leftAfter columns 1 behind)⟩ () := by
  have whole (rows : List TableRow) : front ++ row :: (written ++ rows) =
      (front ++ row :: written) ++ rows := by
    rw [List.append_assoc, List.cons_append]
  have count : (front ++ row :: written).length = target := by
    rw [place, List.length_append, List.length_cons]
    omega
  have room : (if (((front ++ row :: written) ++ behind)[target]?).any
          fun row => !row.isOccupied columns
        then change ⟨(front ++ row :: written) ++ behind⟩
          (removeRow ⟨(front ++ row :: written) ++ behind⟩ target)
        else .done ⟨(front ++ row :: written) ++ behind⟩ ()) =
      .done ⟨(front ++ row :: written) ++ TableRow.leftAfter columns 1 behind⟩ () := by
    subst count
    cases behind with
    | nil => simp [TableRow.leftAfter]
    | cons next rest =>
        rw [getElem?_middle, Option.any_some]
        cases occupied : next.isOccupied columns with
        | true => rw [TableRow.leftAfter_of_occupied occupied]; rfl
        | false =>
            rw [TableRow.leftAfter_of_free occupied, Bool.not_false, if_pos rfl, removeRow_middle]
            rfl
  have cloned (rows : List TableRow) :
      cloneRow ⟨(front ++ row :: written) ++ rows⟩ front.length target =
        .ok ⟨(front ++ row :: written) ++ row :: rows⟩ := by
    subst count
    rw [cloneRow, ← whole, getElem?_middle]
    dsimp only
    rw [whole, if_pos (by simp), insertIdx_middle]
  unfold emitRow
  simp only [whole]
  rw [room, Attempt.andThen_done, cloned, change, Attempt.andThen_done]
  subst count
  simp only [getElem?_middle, TableRow.substituteAll_eq, Attempt.within, Attempt.done]
  simp

theorem emitRows_eq (columns : List Nat) (front behind : List TableRow) (row : TableRow)
    (steps : Nat) (cursors : List ColumnCursor) (written : List TableRow) :
    emitRows options false front.length columns steps cursors written.length
        ⟨front ++ row :: (written ++ behind)⟩ =
      let spelled := ColumnCursor.generations options steps cursors
      .done ⟨front ++ row :: (written ++ (spelled.1.map fun values =>
          row.filledWith (columns.zip values)) ++
            TableRow.leftAfter columns spelled.1.length behind)⟩
        (written.length + spelled.1.length, spelled.2) := by
  induction steps generalizing cursors written behind with
  | zero => simp [emitRows, ColumnCursor.generations, TableRow.leftAfter]
  | succ steps ih =>
      rw [emitRows, ColumnCursor.generations]
      cases found : ColumnCursor.generation? options cursors with
      | none => simp [TableRow.leftAfter]
      | some generation =>
          obtain ⟨values, next⟩ := generation
          have further := ih (TableRow.leftAfter columns 1 behind) next
            (written ++ [row.filledWith (columns.zip values)])
          rw [List.append_assoc, List.singleton_append, List.length_append,
            List.length_singleton] at further
          dsimp only at further ⊢
          rw [if_neg Bool.false_ne_true, emitRow_eq columns values front written behind row rfl,
            Attempt.andThen_done, further]
          rw [← TableRow.leftAfter_succ, List.length_cons, List.map_cons, Nat.add_assoc,
            Nat.add_comm 1, List.append_assoc, List.append_assoc, List.append_assoc]
          rfl

/-- What the expansion makes of rows that it has not come to yet. A row that names no items stays;
a template row gives way to its copies, which free rows behind it make room for. -/
def expansion (source : Source) (options : FillOptions) : List TableRow → List TableRow × Outcome
  | [] => ([], {})
  | row :: rest =>
      let (cursors, unresolved) := TableRow.cursorsFrom source 0 row.cells
      if cursors.isEmpty then
        let (rows, outcome) := expansion source options rest
        (row :: rows, Outcome.merge { unresolved } outcome)
      else
        let columns := cursors.map ColumnCursor.column
        let (texts, spent) :=
          ColumnCursor.generations options (ColumnCursor.longest cursors) cursors
        let missing := spent.filter ColumnCursor.missingProperty
        let (rows, outcome) :=
          expansion source options (TableRow.leftAfter columns texts.length rest)
        ((texts.map fun values => row.filledWith (columns.zip values)) ++ rows,
          Outcome.merge
            { expanded := spent.length
              rowsEmitted := texts.length
              unresolved := unresolved ++ missing.map ColumnCursor.placeholder } outcome)
termination_by rows => rows.length
decreasing_by
  · exact Nat.lt_succ_self _
  · exact Nat.lt_succ_of_le (TableRow.length_leftAfter_le ..)

/-- The walk over the rows comes to their expansion, with any number of steps that is not lower
than that of the rows. -/
theorem expandFrom_eq (source : Source) (options : FillOptions) {steps : Nat}
    (front behind : List TableRow) (enough : behind.length ≤ steps) (outcome : Outcome) :
    expandFrom source options false steps front.length outcome ⟨front ++ behind⟩ =
      .done ⟨front ++ (expansion source options behind).1⟩
        (outcome.merge (expansion source options behind).2) := by
  induction steps generalizing front behind outcome with
  | zero =>
      cases List.length_eq_zero_iff.1 (Nat.le_zero.1 enough)
      rw [expandFrom, expansion, Outcome.merge_empty]
  | succ steps ih =>
      rw [expandFrom]
      cases behind with
      | nil =>
          rw [List.getElem?_eq_none (by simp), expansion, Outcome.merge_empty]
      | cons row rest =>
          rw [getElem?_middle, expansion]
          dsimp only
          generalize TableRow.cursorsFrom source 0 row.cells = read
          obtain ⟨cursors, unresolved⟩ := read
          rw [if_neg Bool.false_ne_true]
          by_cases plain : cursors.isEmpty = true
          · have further := ih (front ++ [row]) rest (Nat.le_of_succ_le_succ enough)
              (outcome.merge { unresolved })
            rw [List.length_append, List.length_singleton, List.append_assoc,
              List.append_assoc, List.singleton_append, List.singleton_append] at further
            rw [if_pos plain, if_pos plain, further, Outcome.merge_assoc]
          · rw [if_neg plain, if_neg plain]
            have wrote : emitRows options false front.length (cursors.map ColumnCursor.column)
                (ColumnCursor.longest cursors) cursors 0 ⟨front ++ row :: rest⟩ = _ :=
              emitRows_eq (cursors.map ColumnCursor.column) front rest row
                (ColumnCursor.longest cursors) cursors []
            rw [wrote]
            generalize ColumnCursor.generations options (ColumnCursor.longest cursors) cursors =
              spelled
            obtain ⟨texts, spent⟩ := spelled
            have further := ih (front ++ texts.map fun values =>
                row.filledWith ((cursors.map ColumnCursor.column).zip values))
              (TableRow.leftAfter (cursors.map ColumnCursor.column) texts.length rest)
              (Nat.le_trans (TableRow.length_leftAfter_le ..) (Nat.le_of_succ_le_succ enough))
              ((outcome.merge { unresolved }).merge
                { expanded := spent.length
                  rowsEmitted := texts.length
                  unresolved := (spent.filter ColumnCursor.missingProperty).map
                    ColumnCursor.placeholder })
            rw [List.length_append, List.length_map, List.append_assoc,
              List.append_assoc] at further
            rw [Attempt.andThen_done, removeRow_middle, change, Attempt.andThen_done,
              List.length_nil, Nat.zero_add, List.nil_append, further, Outcome.merge_assoc,
              Outcome.merge_assoc]
            simp only [Outcome.merge, Nat.zero_add, List.append_assoc]

theorem expand_eq (source : Source) (options : FillOptions) (t : Table) :
    t.expand source options false =
      .done ⟨(expansion source options t.rows).1⟩ (expansion source options t.rows).2 := by
  have walked := expandFrom_eq source options [] t.rows (Nat.le_refl _) {}
  rw [expand]
  simpa [Outcome.merge] using walked

end Table

end Stencil
