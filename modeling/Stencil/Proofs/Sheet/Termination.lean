import Stencil.Proofs.Sheet.Headroom
import Stencil.Proofs.Sheet.Load

/-! When filling a workbook ends. The rows that an expansion adds are visited in their turn, so
text from the data may expand again. Filling ends if no text leads to itself that way. The measure
is taken column by column: an expansion leaves fewer to come in its own column and no more in those
to its right, but where it pushes its row down the columns to its left come again. -/

namespace Stencil

/-- Expanding a text and all that is written for it comes to an end. The first item does not count:
it is written where the text was, which the walk has passed. -/
inductive Settles (source : Source) (options : FillOptions) : String → Prop
  | intro (text : String)
      (below : ∀ later, .text later ∈ (source.written options text).drop 1 →
        Settles source options later) :
      Settles source options text

/-- An expansion of one text writes the other. -/
def Writes (source : Source) (options : FillOptions) (earlier later : String) : Prop :=
  .text later ∈ source.written options earlier

/-- All texts that a text leads to settle, those that are first items among them. -/
def SettlesThroughout (source : Source) (options : FillOptions) (text : String) : Prop :=
  ∀ later, Relation.ReflTransGen (Writes source options) text later →
    Settles source options later

variable {source : Source} {options : FillOptions} {text : String}

theorem Expanded.writes {s : Sheet} {row column i : Nat} (x : Expanded source options s row column)
    (written : x.values[i]? = some (.text text)) : Writes source options x.template text := by
  rw [Writes, x.written_eq]
  exact List.mem_of_getElem? written

theorem SettlesThroughout.settles (throughout : SettlesThroughout source options text) :
    Settles source options text :=
  throughout text .refl

theorem SettlesThroughout.of_writes {later : String}
    (throughout : SettlesThroughout source options text)
    (writes : Writes source options text later) :
    SettlesThroughout source options later :=
  fun last reaches => throughout last (.head writes reaches)

namespace Settles

/-- How many expansions a text leads to, itself included. -/
noncomputable def expansions (settled : Settles source options text) : Nat :=
  settled.rec fun text _ weights =>
    1 + (((source.written options text).drop 1).attach.map fun value =>
      match shape : value.1 with
      | .text later => weights later (shape ▸ value.2)
      | _ => 0).sum

theorem of_nothing (nothing : source.written options text = []) :
    Settles source options text := by
  constructor
  intro later written
  rw [nothing] at written
  cases written

/-- If a text does not settle, then neither does one of the items behind the first. -/
theorem exists_later (endless : ¬Settles source options text) :
    ∃ later, .text later ∈ (source.written options text).drop 1 ∧
      ¬Settles source options later := by
  by_contra none
  apply endless
  constructor
  intro later written
  by_contra endless
  exact none ⟨later, written, endless⟩

end Settles

open Classical in
/-- The expansions that a value leads to, none where they have no end. -/
noncomputable def expansionsOf (source : Source) (options : FillOptions) : CellValue → Nat
  | .text text => if settled : Settles source options text then settled.expansions else 0
  | _ => 0

theorem expansionsOf_text (settled : Settles source options text) :
    expansionsOf source options (.text text) =
      1 + (((source.written options text).drop 1).map (expansionsOf source options)).sum := by
  cases settled with
  | intro text below =>
      rw [expansionsOf, dif_pos (Settles.intro text below)]
      show 1 + _ = _
      congr 2
      conv_rhs => rw [← List.attach_map_subtype_val ((source.written options text).drop 1)]
      rw [List.map_map]
      apply List.map_congr_left
      rintro ⟨value, member⟩ -
      cases value with
      | text later => exact (dif_pos (below later member)).symm
      | _ => rfl

/-! ### Loads by column -/

/-- Less in one column, and no more in those to its right. -/
def Lighter (a b : Nat → Nat) : Prop := ∃ column, a column < b column ∧ ∀ k > column, a k ≤ b k

/-- The column is one of the first. -/
def LighterWithin (width : Nat) (a b : Nat → Nat) : Prop :=
  ∃ column < width, a column < b column ∧ ∀ k > column, a k ≤ b k

/-- The load in the last column falls, or it stays and that in the others falls. -/
theorem LighterWithin.wellFounded (width : Nat) : WellFounded (LighterWithin width) := by
  induction width with
  | zero =>
      constructor
      intro a
      constructor
      rintro b ⟨column, nowhere, -⟩
      cases nowhere
  | succ width ih =>
      let split : (Nat → Nat) → Nat × (Nat → Nat) := fun a => (a width, a)
      apply Subrelation.wf (r := InvImage (Prod.Lex (· < ·) (LighterWithin width)) split)
      · rintro a b ⟨column, inside, less, right⟩
        rcases Nat.eq_or_lt_of_le (Nat.le_of_lt_succ inside) with rfl | inner
        · exact .left _ _ less
        · rcases Nat.eq_or_lt_of_le (right width inner) with same | falls
          · show Prod.Lex _ _ (a width, a) (b width, b)
            rw [same]
            exact .right _ ⟨column, inner, less, right⟩
          · exact .left _ _ falls
      · exact InvImage.wf split (Prod.lex Nat.lt_wfRel ⟨_, ih⟩).wf

namespace Lighter

variable {a b c : Nat → Nat} {width : Nat}

theorem of_le (le : ∀ k, a k ≤ b k) (lighter : Lighter b c) : Lighter a c := by
  obtain ⟨column, less, right⟩ := lighter
  refine ⟨column, Nat.lt_of_le_of_lt (le column) less, ?_⟩
  intro k low
  exact Nat.le_trans (le k) (right k low)

theorem trans_le (lighter : Lighter a b) (le : ∀ k, b k ≤ c k) : Lighter a c := by
  obtain ⟨column, less, right⟩ := lighter
  refine ⟨column, Nat.lt_of_lt_of_le less (le column), ?_⟩
  intro k low
  exact Nat.le_trans (right k low) (le k)

theorem trans (first : Lighter a b) (second : Lighter b c) : Lighter a c := by
  obtain ⟨i, lessFirst, rightFirst⟩ := first
  obtain ⟨j, lessSecond, rightSecond⟩ := second
  refine ⟨max i j, ?_, ?_⟩
  · rcases Nat.lt_trichotomy i j with before | rfl | behind
    · rw [Nat.max_eq_right (Nat.le_of_lt before)]
      calc a j ≤ b j := rightFirst j before
        _ < c j := lessSecond
    · rw [Nat.max_self]
      exact Nat.lt_trans lessFirst lessSecond
    · rw [Nat.max_eq_left (Nat.le_of_lt behind)]
      calc a i < b i := lessFirst
        _ ≤ c i := rightSecond i behind
  · intro k low
    calc a k ≤ b k := rightFirst k (by omega)
      _ ≤ c k := rightSecond k (by omega)

theorem or_eq_of_le (le : ∀ k, a k ≤ b k) : Lighter a b ∨ a = b := by
  by_cases same : a = b
  · exact .inr same
  · obtain ⟨column, apart⟩ := Function.ne_iff.1 same
    exact .inl ⟨column, Nat.lt_of_le_of_ne (le column) apart, fun k _ => le k⟩

theorem within (lighter : Lighter a b) (zero : ∀ k ≥ width, b k = 0) :
    LighterWithin width a b := by
  obtain ⟨column, less, right⟩ := lighter
  refine ⟨column, ?_, less, right⟩
  by_contra outside
  rw [zero column (Nat.le_of_not_lt outside)] at less
  cases less

theorem narrow (lighter : Lighter a b) (zero : ∀ k ≥ width, b k = 0) :
    ∀ k ≥ width, a k = 0 := by
  obtain ⟨column, inside, -, right⟩ := lighter.within zero
  intro k high
  apply Nat.eq_zero_of_le_zero
  rw [← zero k high]
  exact right k (Nat.lt_of_lt_of_le inside high)

/-- Loads in finitely many columns cannot get lighter forever. -/
theorem acc (width : Nat) (zero : ∀ k ≥ width, a k = 0) : Acc Lighter a := by
  induction a using (LighterWithin.wellFounded width).induction with
  | _ a ih =>
      constructor
      intro b lighter
      exact ih b (lighter.within zero) (lighter.narrow zero)

end Lighter

namespace Sheet

variable {s start : Sheet} {row column : Nat}

/-- The expansions to come in each column when a walk comes to a cell. -/
noncomputable def columnLoad (source : Source) (options : FillOptions) (row column : Nat)
    (s : Sheet) : Nat → Nat :=
  fun k => s.load (pending row column fun c value =>
    if c = k then expansionsOf source options value else 0)

theorem columnLoad_le {row' column' : Nat} (later : row < row' ∨ row = row' ∧ column ≤ column')
    (k : Nat) :
    columnLoad source options row' column' s k ≤ columnLoad source options row column s k :=
  load_mono fun r c cell _ => pending_mono later r c cell.value

theorem acc_columnLoad (source : Source) (options : FillOptions) (row column : Nat) (s : Sheet) :
    Acc Lighter (columnLoad source options row column s) := by
  apply Lighter.acc (s.load fun _ c _ => c + 1)
  intro k high
  apply load_eq_zero
  intro r c cell held
  have low : c + 1 ≤ s.load fun _ c _ => c + 1 := le_load (fun _ c _ => c + 1) held
  refine Nat.eq_zero_of_le_zero ((pending_le ..).trans (Nat.le_of_eq (if_neg ?_)))
  omega

/-! ### What a walk comes to -/

/-- A row that the collection pass comes to, the columns of it that are still to be visited, and the
sheet as it is by then. -/
inductive OnWalk (source : Source) (options : FillOptions) (s : Sheet) :
    Nat → List Nat → Sheet → Prop
  | start {row : Nat} (first : s.firstRow? = some row) :
      OnWalk source options s row (s.columns row) s
  | visit {row column : Nat} {rest : List Nat} {t next : Sheet} {outcome : Outcome}
      (onWalk : OnWalk source options s row (column :: rest) t)
      (ran : visitCollections source options false .endless t row column = .done next outcome) :
      OnWalk source options s row rest next
  | onward {row : Nat} {t : Sheet} (onWalk : OnWalk source options s row [] t) :
      OnWalk source options s (row + 1) (t.columns (row + 1)) t

/-- All texts of a sheet settle. -/
def Settled (source : Source) (options : FillOptions) (s : Sheet) : Prop :=
  ∀ r c text, s.text? r c = some text → Settles source options text

/-- All texts of a sheet settle, and so does whatever they lead to. -/
def SettledThroughout (source : Source) (options : FillOptions) (s : Sheet) : Prop :=
  ∀ r c text, s.text? r c = some text → SettlesThroughout source options text

/-- All texts settle that the walk over a sheet comes to. -/
def SettledOnWalk (source : Source) (options : FillOptions) (s : Sheet) : Prop :=
  ∀ row column rest t text, s.OnWalk source options row (column :: rest) t →
    t.text? row column = some text → Settles source options text

/-- No cell that expands stands in a column of a merged region. -/
def Aside (source : Source) (options : FillOptions) (s : Sheet) : Prop :=
  ∀ r c text, s.text? r c = some text → source.written options text ≠ [] →
    ∀ region ∈ s.merged, c < region.firstColumn ∨ region.lastColumn < c

namespace OnWalk

variable {columns rest : List Nat} {t : Sheet}

theorem ascending (onWalk : s.OnWalk source options row columns t) : columns.Pairwise (· < ·) := by
  induction onWalk with
  | start first => exact columns_ascending ..
  | visit onWalk ran ascending => exact (List.pairwise_cons.1 ascending).2
  | onward onWalk _ => exact columns_ascending ..

/-- What holds before the walk and is preserved by its visits holds wherever it comes to. -/
theorem holds (Holds : Nat → List Nat → Sheet → Prop)
    (first : ∀ row, (∀ r, s.hasRow r = true → row ≤ r) → Holds row (s.columns row) s)
    (visits : ∀ row column rest t next, (column :: rest).Pairwise (· < ·) →
      Holds row (column :: rest) t → Visited source options t row column .endless next →
      Holds row rest next)
    (rows : ∀ row t, Holds row [] t → Holds (row + 1) (t.columns (row + 1)) t)
    (onWalk : s.OnWalk source options row columns t) : Holds row columns t := by
  induction onWalk with
  | start found =>
      exact first _ fun r present => ((Sparse.firstIndex?_eq_some_iff ..).1 found).2 present
  | @visit row column rest t next outcome onWalk ran before =>
      obtain ⟨_, _, same, visited⟩ := visitCollections_visited source options t row column
      cases ran.symm.trans same
      exact visits row column rest t next onWalk.ascending before visited
  | onward onWalk before => exact rows _ _ before

end OnWalk

/-- With all that the texts of a sheet lead to, the texts that the walk comes to settle. -/
theorem SettledThroughout.onWalk (throughout : s.SettledThroughout source options) :
    s.SettledOnWalk source options := by
  intro row column rest t text onWalk held
  have all : t.SettledThroughout source options := by
    refine onWalk.holds (fun _ _ u => u.SettledThroughout source options) (fun _ _ => throughout)
      ?_ fun _ _ before => before
    intro row column rest u next _ before visited
    cases visited with
    | quiet nothing => exact before
    | expanded x =>
        intro r c text held
        rcases x.text_origin held with ⟨i, -, -, written⟩ | ⟨q, -, -, earlier⟩
        · exact (before row column x.template x.holds).of_writes (x.writes written)
        · exact before q c text earlier
  exact (all row column text held).settles

/-- Every text is in the column of a text that was there before, and expands only if that does. -/
theorem Aside.after (aside : s.Aside source options) (x : Expanded source options s row column) :
    x.after.Aside source options := by
  intro r c text held written region member
  rw [x.merged_after, shiftRows, wrap_endless, List.mem_map] at member
  obtain ⟨before, inside, rfl⟩ := member
  obtain ⟨first, last⟩ := before.columns_shift (row + x.reach) (x.items.length - x.reach)
  rw [first, last]
  rcases x.text_origin held with ⟨i, -, rfl, fresh⟩ | ⟨q, -, -, earlier⟩
  · exact aside row c x.template x.holds (List.ne_nil_of_mem (x.writes fresh)) before inside
  · exact aside q c text earlier written before inside

/-- Beside the merged regions no row is pushed down that the walk has passed. -/
theorem Aside.reach_pos (aside : s.Aside source options)
    (x : Expanded source options s row column) : 0 < x.reach := by
  apply Nat.pos_of_ne_zero
  intro pushed
  obtain ⟨region, member, inside⟩ := List.any_eq_true.1 (x.isMerged_of_pushed pushed)
  obtain ⟨value, at_⟩ := x.exists_value (List.length_pos_iff.2 x.nonempty)
  have written : source.written options x.template ≠ [] := by
    rw [x.written_eq]
    exact List.ne_nil_of_mem (List.mem_of_getElem? at_)
  have apart := aside row column x.template x.holds written region member
  simp only [Region.contains, Bool.and_eq_true, decide_eq_true_eq] at inside
  omega

/-- Beside the merged regions the walk comes to texts that were there before it, and to items that
are not the first of their sequence. -/
theorem Aside.onWalk (aside : s.Aside source options) (settled : s.Settled source options) :
    s.SettledOnWalk source options := by
  intro row column rest t text onWalk held
  have ahead : t.Aside source options ∧ ∀ r c text, t.text? r c = some text →
      Ahead row (column :: rest) r c → Settles source options text := by
    refine onWalk.holds (fun row columns u => u.Aside source options ∧ ∀ r c text,
      u.text? r c = some text → Ahead row columns r c → Settles source options text)
      (fun _ _ => ⟨aside, fun r c text held _ => settled r c text held⟩) ?_ ?_
    · rintro row column rest u next ascending ⟨aside, settles⟩ visited
      cases visited with
      | quiet nothing =>
          refine ⟨aside, fun r c text held later => settles r c text held ?_⟩
          exact later.imp_right fun inRow => ⟨inRow.1, List.mem_cons_of_mem _ inRow.2⟩
      | expanded x =>
          refine ⟨aside.after x, fun r c text held later => ?_⟩
          rcases x.text_origin held with ⟨i, rfl, rfl, written⟩ | ⟨q, rfl, other, earlier⟩
          · -- an item that is still ahead is not the first
            obtain ⟨_, below⟩ := settles row c x.template x.holds (.inr ⟨rfl, List.mem_cons_self ..⟩)
            have passed : c ∉ rest := fun member =>
              Nat.lt_irrefl c ((List.pairwise_cons.1 ascending).1 c member)
            obtain ⟨j, rfl⟩ : ∃ j, i = 1 + j := by
              have low : row < row + i := later.resolve_right fun inRow => passed inRow.2
              exact ⟨i - 1, by omega⟩
            apply below
            apply List.mem_of_getElem? (i := j)
            rw [x.written_eq, List.getElem?_drop, written]
          · apply settles q c text earlier
            have used := aside.reach_pos x
            rw [Expanded.rowOf, Sparse.moved] at later
            split at later
            · exact .inl (by omega)
            · exact later.imp_right fun inRow => ⟨inRow.1, List.mem_cons_of_mem _ inRow.2⟩
    · rintro row u ⟨aside, settles⟩
      refine ⟨aside, fun r c text held later => settles r c text held ?_⟩
      rcases later with low | ⟨rfl, -⟩ <;> exact .inl (by omega)
  exact ahead.2 row column text held (.inr ⟨rfl, List.mem_cons_self ..⟩)

/-! ### Walks that end -/

/-- An expansion leaves less to come in its column, and no more to the right of it. -/
theorem lighter_of_expanded (x : Expanded source options s row column)
    (settles : Settles source options x.template) :
    Lighter (columnLoad source options row (column + 1) x.after)
      (columnLoad source options row column s) := by
  have template := expansionsOf_text settles
  have left : ∀ k, column ≤ k → columnLoad source options row (column + 1) x.after k +
      (if column = k then expansionsOf source options (.text x.template) else 0) ≤
        columnLoad source options row column s k + ((x.values.drop 1).map fun value =>
          if column = k then expansionsOf source options value else 0).sum := by
    intro k low
    apply x.load_after
    · intro c
      split <;> rfl
    · intro _ c before value
      exact if_neg (by omega)
  refine ⟨column, ?_, ?_⟩
  · have here := left column (Nat.le_refl column)
    simp only [if_true] at here
    change _ ≤ _ + ((x.values.drop 1).map (expansionsOf source options)).sum at here
    rw [template, x.written_eq] at here
    omega
  · intro k low
    have there := left k (Nat.le_of_lt low)
    simp only [if_neg (Nat.ne_of_lt low), List.map_const', List.sum_replicate_nat,
      Nat.mul_zero, Nat.add_zero] at there
    exact there

/-- While a row is visited, the sheet is as it was before or has less to come. -/
structure Descending (source : Source) (options : FillOptions) (origin : Sheet) (row : Nat)
    (start : Sheet) (columns : List Nat) (s : Sheet) : Prop where
  onWalk : origin.OnWalk source options row columns s
  lighter : ∃ column, (∀ c ∈ columns, column ≤ c) ∧
    (s = start ∨ Lighter (columnLoad source options row column s)
      (columnLoad source options row 0 start))

theorem Descending.step {origin : Sheet} {rest : List Nat}
    (settled : origin.SettledOnWalk source options)
    (descending : Descending source options origin row start (column :: rest) s) :
    ∃ next outcome, visitCollections source options false .endless s row column = .done next outcome ∧
      Descending source options origin row start rest next := by
  obtain ⟨onWalk, passed, low, lighter⟩ := descending
  obtain ⟨behind, -⟩ := List.pairwise_cons.1 onWalk.ascending
  have here : passed ≤ column := low column (List.mem_cons_self ..)
  obtain ⟨next, outcome, ran, visited⟩ := visitCollections_visited source options s row column
  refine ⟨next, outcome, ran, onWalk.visit ran, ?_⟩
  cases visited with
  | quiet nothing =>
      refine ⟨column, fun c member => Nat.le_of_lt (behind c member), ?_⟩
      apply lighter.imp_right
      exact Lighter.of_le (columnLoad_le (.inr ⟨rfl, here⟩))
  | expanded x =>
      refine ⟨column + 1, behind, .inr ?_⟩
      have less := lighter_of_expanded x
        (settled row column rest s x.template onWalk x.holds)
      rcases lighter with rfl | before
      · exact less.trans_le (columnLoad_le (.inr ⟨rfl, Nat.zero_le column⟩))
      · exact less.trans (before.of_le (columnLoad_le (.inr ⟨rfl, here⟩)))

/-- A row leaves less to come, or as much on a sheet that is no higher. -/
theorem OnWalk.rowVisit {origin : Sheet} (settled : origin.SettledOnWalk source options)
    (onWalk : origin.OnWalk source options row (s.columns row) s) :
    ∃ next, RowVisit (visitCollections source options false) row (s.columns row) s next ∧
      origin.OnWalk source options (row + 1) (next.columns (row + 1)) next ∧
      (Lighter (columnLoad source options (row + 1) 0 next) (columnLoad source options row 0 s) ∨
        columnLoad source options (row + 1) 0 next = columnLoad source options row 0 s ∧
          next.height ≤ s.height) := by
  obtain ⟨next, visits, onWalk, column, -, lighter⟩ := rowVisit_of_step
    (Descending source options origin row s) (fun _ _ _ => Descending.step settled) (s.columns row)
    ⟨onWalk, 0, fun c _ => Nat.zero_le c, .inl rfl⟩
  refine ⟨next, visits, onWalk.onward, ?_⟩
  rcases lighter with rfl | less
  · have same : Lighter (columnLoad source options (row + 1) 0 next)
        (columnLoad source options row 0 next) ∨ _ :=
      Lighter.or_eq_of_le (columnLoad_le (.inl (Nat.lt_succ_self row)))
    exact same.imp_right fun equal => ⟨equal, Nat.le_refl _⟩
  · exact .inl (less.of_le (columnLoad_le (.inl (Nat.lt_succ_self row))))

/-- The collection pass ends if all texts settle that it comes to. -/
theorem walk_collections_ends (settled : s.SettledOnWalk source options) (report : Report) :
    ∃ enough last report', ∀ bound ≥ enough,
      s.walk (visitCollections source options false) false bound report =
        some (.done last report') := by
  unfold walk
  cases first : s.firstRow? with
  | none => exact ⟨0, s, report, fun _ _ => rfl⟩
  | some row =>
      obtain ⟨enough, last, report', -, -, -, ends⟩ :=
        walkFrom_ends (fun row t => s.OnWalk source options row (t.columns row) t)
          (fun row => columnLoad source options row 0) (fun _ _ _ onWalk => onWalk.rowVisit settled)
          (acc_columnLoad source options row 0 s) report (.start first)
      exact ⟨enough, last, report', ends⟩

/-- Filling the scalars of a cell fails nowhere and adds no rows. -/
theorem visitScalars_done (source : Source) (options : FillOptions) (s : Sheet)
    (row column : Nat) :
    ∃ next outcome, visitScalars source options s row column = .done next outcome ∧
      ∀ r, next.hasRow r = s.hasRow r :=
  ⟨_, _, visitScalars_eq .., hasRow_refilled s row column⟩

theorem walk_scalars_ends (source : Source) (options : FillOptions) (s : Sheet)
    (report : Report) :
    ∃ enough last report', ∀ bound ≥ enough,
      s.walk (visitScalars source options) false bound report = some (.done last report') := by
  have step : ∀ row t, row < t.height → True →
      ∃ next, RowVisit (visitScalars source options) row (t.columns row) t next ∧ True ∧
        (0 < 0 ∨ 0 = 0 ∧ next.height ≤ t.height) := by
    intro row t _ _
    have keeps : ∀ column (rest : List Nat) u, (∀ r, u.hasRow r = t.hasRow r) →
        ∃ next outcome, visitScalars source options u row column = .done next outcome ∧
          ∀ r, next.hasRow r = t.hasRow r := by
      intro column rest u before
      obtain ⟨next, outcome, ran, rows⟩ := visitScalars_done source options u row column
      exact ⟨next, outcome, ran, fun r => (rows r).trans (before r)⟩
    obtain ⟨next, visits, rows⟩ := rowVisit_of_step
      (fun _ u => ∀ r, u.hasRow r = t.hasRow r) keeps (t.columns row) (fun r => rfl)
    exact ⟨next, visits, trivial, .inr ⟨rfl, Nat.le_of_eq (height_congr rows)⟩⟩
  unfold walk
  cases s.firstRow? with
  | none => exact ⟨0, s, report, fun _ _ => rfl⟩
  | some row =>
      obtain ⟨enough, last, report', -, -, -, ends⟩ :=
        walkFrom_ends (fun _ _ => True) (fun _ _ => 0) step (Nat.lt_wfRel.wf.apply 0) report
          trivial
      exact ⟨enough, last, report', ends⟩

/-! ### Walks that never end -/

/-- A text that does not settle is still to be visited. -/
def Live (source : Source) (options : FillOptions) (row : Nat) (columns : List Nat) (s : Sheet) :
    Prop :=
  ∃ r c text, s.text? r c = some text ∧ ¬Settles source options text ∧
    (row < r ∨ r = row ∧ c ∈ columns)

private theorem Live.expanded {column : Nat} {columns : List Nat}
    (x : Expanded source options s row column)
    (live : Live source options row (column :: columns) s) :
    Live source options row columns x.after := by
  obtain ⟨r, c, text, held, endless, place⟩ := live
  by_cases here : r = row ∧ c = column
  · obtain ⟨rfl, rfl⟩ := here
    cases held.symm.trans x.holds
    obtain ⟨later, written, endless⟩ := Settles.exists_later endless
    obtain ⟨i, at_⟩ := List.mem_iff_getElem?.1 written
    rw [List.getElem?_drop, x.written_eq] at at_
    refine ⟨r + (1 + i), c, later, ?_, endless, .inl (by omega)⟩
    rw [text?, x.value?_written at_]
    rfl
  · have content : text ≠ "" := by
      rintro rfl
      exact endless (.of_nothing (Source.written_of_none (by cbv)))
    have later : Ahead row columns r c := (Ahead.here_or place).resolve_left here
    exact ⟨x.rowOf r, c, text, x.text_kept held content here, endless, later.lower (x.le_rowOf r)⟩

theorem Live.step {column : Nat} {columns : List Nat}
    (live : Live source options row (column :: columns) s) :
    ∃ next outcome, visitCollections source options false .endless s row column = .done next outcome ∧
      Live source options row columns next := by
  obtain ⟨next, outcome, ran, visited⟩ := visitCollections_visited source options s row column
  refine ⟨next, outcome, ran, ?_⟩
  cases visited with
  | quiet nothing =>
      obtain ⟨r, c, text, held, endless, place⟩ := live
      refine ⟨r, c, text, held, endless, place.imp_right fun inside => ⟨inside.1, ?_⟩⟩
      rcases List.mem_cons.1 inside.2 with rfl | later
      · rw [inside.1] at held
        exact absurd (.of_nothing (nothing text held)) endless
      · exact later
  | expanded x => exact live.expanded x

theorem Live.rowVisit {columns : List Nat} (live : Live source options row columns s) :
    ∃ next, RowVisit (visitCollections source options false) row columns s next ∧
      ∃ r c text, next.text? r c = some text ∧ ¬Settles source options text ∧ row + 1 ≤ r := by
  obtain ⟨next, visits, r, c, text, held, endless, place⟩ :=
    rowVisit_of_step (Live source options row) (fun _ _ _ => Live.step) columns live
  refine ⟨next, visits, r, c, text, held, endless, place.resolve_right ?_⟩
  exact fun inRow => nomatch inRow.2

/-- The collection pass does not end while it has a text before it that does not settle. -/
theorem walkFrom_collections_eq_none {r c : Nat} {text : String} (held : s.text? r c = some text)
    (endless : ¬Settles source options text) (low : row ≤ r) (bound : Nat) (report : Report) :
    walkFrom (visitCollections source options false) false bound row s report = none := by
  refine walkFrom_eq_none (fun row t => ∃ r c text, t.text? r c = some text ∧
    ¬Settles source options text ∧ row ≤ r) ?_ bound ⟨r, c, text, held, endless, low⟩
  rintro row t ⟨r, c, text, held, endless, low⟩
  obtain ⟨cell, present, -⟩ := (text?_eq_some_iff ..).1 held
  refine ⟨Nat.lt_of_le_of_lt low (lt_height (hasRow_of_cell? present)), Live.rowVisit ?_⟩
  refine ⟨r, c, text, held, endless, ?_⟩
  rcases Nat.lt_or_eq_of_le low with below | rfl
  · exact .inl below
  · exact .inr ⟨rfl, mem_columns present⟩

/-- A walk that ends has ended each of its rows. -/
theorem exists_row_of_walkFrom {bound : Nat} {report : Report} {outcome : Attempt Sheet Report}
    (ended : walkFrom (visitCollections source options false) false bound row s report =
      some outcome) :
    ∃ less next report',
      visitColumns (visitCollections source options false) row (s.columns row) s report =
          .done next report' ∧
        walkFrom (visitCollections source options false) false less (row + 1) next report' =
          some outcome := by
  rcases Nat.lt_or_ge row s.height with high | low
  · obtain ⟨less, rfl⟩ : ∃ less, bound = less + 1 := by
      cases bound with
      | zero =>
          rw [walkFrom_zero high] at ended
          cases ended
      | succ less => exact ⟨less, rfl⟩
    have visits : ∀ t r column, ∃ next outcome,
        visitCollections source options false .endless t r column = .done next outcome := by
      intro t r column
      obtain ⟨next, ran⟩ := visitCollections_outcome source options t r column .endless
      exact ⟨next, _, ran⟩
    obtain ⟨next, report', visited⟩ := visitColumns_done visits row (s.columns row) s report
    rw [walkFrom_succ high visited] at ended
    exact ⟨less, next, report', visited, ended⟩
  · rw [walkFrom_of_height_le low] at ended
    rw [columns_eq_nil (absent_of_height_le low)]
    exact ⟨bound, s, report, rfl, (walkFrom_of_height_le (Nat.le_succ_of_le low)).trans ended⟩

/-- From wherever a walk comes to it ends if it ends as a whole. -/
theorem OnWalk.ends {columns : List Nat} {t : Sheet} {bound : Nat} {report : Report}
    {outcome : Attempt Sheet Report} (onWalk : s.OnWalk source options row columns t)
    (ended : s.walk (visitCollections source options false) false bound report = some outcome) :
    ∃ less now next report',
      visitColumns (visitCollections source options false) row columns t now =
          .done next report' ∧
        walkFrom (visitCollections source options false) false less (row + 1) next report' =
          some outcome := by
  induction onWalk with
  | start first =>
      rw [walk, first] at ended
      obtain ⟨less, next, report', visited, later⟩ := exists_row_of_walkFrom ended
      exact ⟨less, report, next, report', visited, later⟩
  | visit onWalk ran before =>
      obtain ⟨less, now, next, report', visited, later⟩ := before
      rw [visitColumns, ran] at visited
      exact ⟨less, _, next, report', visited, later⟩
  | onward onWalk before =>
      obtain ⟨less, now, next, report', visited, later⟩ := before
      cases visited
      obtain ⟨less, next, report', visited, later⟩ := exists_row_of_walkFrom later
      exact ⟨less, _, next, report', visited, later⟩

/-- Where the collection pass ends, all texts settle that it came to. -/
theorem settledOnWalk_of_walk {bound : Nat} {report : Report} {outcome : Attempt Sheet Report}
    (ended : s.walk (visitCollections source options false) false bound report = some outcome) :
    s.SettledOnWalk source options := by
  intro row column rest t text onWalk held
  by_contra endless
  obtain ⟨less, now, next, report', visited, later⟩ := onWalk.ends ended
  have live : Live source options row (column :: rest) t :=
    ⟨row, column, text, held, endless, .inr ⟨rfl, List.mem_cons_self ..⟩⟩
  obtain ⟨_, visits, r, c, text', held', endless', below⟩ := live.rowVisit
  obtain ⟨_, same⟩ := visits now
  cases same.symm.trans visited
  rw [walkFrom_collections_eq_none held' endless' below] at later
  cases later

/-- The texts that a walk comes to take in those that were there before it. -/
theorem SettledOnWalk.settled (settled : s.SettledOnWalk source options) :
    s.Settled source options := by
  intro r c text held
  by_contra endless
  obtain ⟨cell, present, -⟩ := (text?_eq_some_iff ..).1 held
  obtain ⟨row, first, low⟩ := exists_firstRow (hasRow_of_cell? present)
  obtain ⟨enough, last, report, ends⟩ := walk_collections_ends settled {}
  have never := walkFrom_collections_eq_none held endless low enough {}
  have ended := ends enough (Nat.le_refl enough)
  rw [walk, first] at ended
  cases never.symm.trans ended

/-! ### Filling -/

theorem fill_ends (settled : s.SettledOnWalk source options) (report : Report) :
    ∃ enough last report', ∀ bound ≥ enough,
      s.fill source options false bound report = some (.done last report') := by
  obtain ⟨first, middle, report', expands⟩ := walk_collections_ends settled report
  obtain ⟨second, last, report'', fills⟩ := walk_scalars_ends source options middle report'
  refine ⟨max first second, last, report'', ?_⟩
  intro bound large
  rw [fill, expands bound (by omega)]
  exact fills bound (by omega)

theorem settledOnWalk_of_fill {bound : Nat} {report report' : Report} {last : Sheet}
    (ended : s.fill source options false bound report = some (.done last report')) :
    s.SettledOnWalk source options := by
  obtain ⟨middle, between, collections, -⟩ := fill_eq_done_iff.1 ended
  exact settledOnWalk_of_walk collections

end Sheet

end Stencil
