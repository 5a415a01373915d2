import Mathlib
import Stencil.Sheet.Sparse

/-! Sparse entries seen through `get?`: what an update, a shift and the two ends say about it,
and sums over all entries. -/

namespace Stencil.Sparse

variable {α : Type}

theorem get?_set (s : Sparse α) (index other : Nat) (x : α) :
    (s.set index x).get? other = if other = index then some x else s.get? other := by
  by_cases same : other = index
  · rw [if_pos same, same, get?_set_self]
  · rw [if_neg same, get?_set_of_ne s same]

theorem get?_update (s : Sparse α) (index other : Nat) (fresh : α) (f : α → α) :
    (s.update index fresh f).get? other =
      if other = index then some (f ((s.get? index).getD fresh)) else s.get? other :=
  get?_set s index other _

private theorem lookup_eq_none {index : Nat} {entries : List (Nat × α)}
    (absent : ∀ e ∈ entries, e.1 ≠ index) : lookup index entries = none := by
  induction entries with
  | nil => rfl
  | cons head rest ih =>
      obtain ⟨i, y⟩ := head
      have apart : i ≠ index := absent (i, y) (List.mem_cons_self ..)
      rw [lookup, if_neg apart]
      exact ih fun e member => absent e (List.mem_cons_of_mem _ member)

private theorem lookup_of_mem {entries : List (Nat × α)}
    (ascending : entries.Pairwise fun a b => a.1 < b.1) {index : Nat} {x : α}
    (member : (index, x) ∈ entries) : lookup index entries = some x := by
  induction entries with
  | nil => cases member
  | cons head rest ih =>
      obtain ⟨i, y⟩ := head
      obtain ⟨above, following⟩ := List.pairwise_cons.1 ascending
      rcases List.mem_cons.1 member with same | later
      · cases same
        simp [lookup]
      · have apart : i ≠ index := Nat.ne_of_lt (above (index, x) later)
        rw [lookup, if_neg apart]
        exact ih following later

private theorem mem_of_lookup {entries : List (Nat × α)} {index : Nat} {x : α}
    (found : lookup index entries = some x) : (index, x) ∈ entries := by
  induction entries with
  | nil => cases found
  | cons head rest ih =>
      obtain ⟨i, y⟩ := head
      rw [lookup] at found
      by_cases same : i = index
      · rw [if_pos same] at found
        cases found
        rw [same]
        exact List.mem_cons_self ..
      · rw [if_neg same] at found
        exact List.mem_cons_of_mem _ (ih found)

theorem get?_eq_some_iff (s : Sparse α) (index : Nat) (x : α) :
    s.get? index = some x ↔ (index, x) ∈ s.entries :=
  ⟨mem_of_lookup, lookup_of_mem s.ascending⟩

theorem contains_iff_mem (s : Sparse α) (index : Nat) :
    s.contains index = true ↔ ∃ x, (index, x) ∈ s.entries := by
  simp only [contains, Option.isSome_iff_exists, get?_eq_some_iff]

theorem moved_of_lt {start count index : Nat} (below : index < start) :
    moved start count index = index := if_neg (Nat.not_le.2 below)

theorem moved_of_le {start count index : Nat} (above : start ≤ index) :
    moved start count index = index + count := if_pos above

/-- The indices from `start` on are moved up, and nothing is left in between. -/
theorem get?_shift (s : Sparse α) (start count index : Nat) :
    (s.shift start count).get? index =
      if index < start then s.get? index
      else if index < start + count then none
      else s.get? (index - count) := by
  by_cases below : index < start
  · have same := get?_shift_moved s start count index
    rw [moved_of_lt below] at same
    rw [if_pos below, same]
  · rw [if_neg below]
    by_cases gap : index < start + count
    · rw [if_pos gap]
      apply lookup_eq_none
      intro e member
      obtain ⟨⟨i, y⟩, _, rfl⟩ := List.mem_map.1 member
      simp only [moved]
      split <;> omega
    · have same := get?_shift_moved s start count (index - count)
      rw [moved_of_le (by omega), Nat.sub_add_cancel (by omega)] at same
      rw [if_neg gap, same]

/-! ### Renumbering -/

private theorem place_of_above {index : Nat} (x : α) {entries : List (Nat × α)}
    (above : ∀ e ∈ entries, e.1 < index) : place index x entries = entries ++ [(index, x)] := by
  induction entries with
  | nil => rfl
  | cons head rest ih =>
      obtain ⟨i, y⟩ := head
      have low : i < index := above (i, y) (List.mem_cons_self ..)
      rw [place, if_neg (Nat.lt_asymm low), if_neg (Nat.ne_of_gt low),
        ih fun e member => above e (List.mem_cons_of_mem _ member), List.cons_append]

private theorem entries_foldl_set (s : Sparse α) (rest : List (Nat × α))
    (ascending : (s.entries ++ rest).Pairwise fun a b => a.1 < b.1) :
    (rest.foldl (fun s (index, x) => s.set index x) s).entries = s.entries ++ rest := by
  induction rest generalizing s with
  | nil => exact (List.append_nil _).symm
  | cons head rest ih =>
      obtain ⟨index, x⟩ := head
      have last : (s.set index x).entries = s.entries ++ [(index, x)] :=
        place_of_above x fun e member =>
          (List.pairwise_append.1 ascending).2.2 e member (index, x) (List.mem_cons_self ..)
      rw [List.append_cons, ← last] at ascending
      rw [List.foldl_cons, ih _ ascending, last]
      exact (List.append_cons ..).symm

/-- Where every entry keeps its index nothing is overwritten. -/
theorem renumber_of_fixed {s : Sparse α} {number : Nat → Nat}
    (fixed : ∀ e ∈ s.entries, number e.1 = e.1) : s.renumber number = s := by
  have same : (s.entries.map fun (index, x) => (number index, x)) = s.entries := by
    conv_rhs => rw [← List.map_id s.entries]
    apply List.map_congr_left
    rintro ⟨index, x⟩ member
    exact congrArg (·, x) (fixed _ member)
  apply ext
  rw [renumber, same, ofList, entries_foldl_set empty s.entries s.ascending]
  rfl

private theorem contains_foldl_set {index : Nat} {rest : List (Nat × α)} (s : Sparse α)
    (found : s.contains index = true ∨ ∃ x, (index, x) ∈ rest) :
    (rest.foldl (fun s (index, x) => s.set index x) s).contains index = true := by
  induction rest generalizing s with
  | nil => exact found.resolve_right fun ⟨_, member⟩ => nomatch member
  | cons head rest ih =>
      obtain ⟨i, y⟩ := head
      apply ih
      by_cases same : index = i
      · left
        rw [contains, get?_set, if_pos same]
        rfl
      · rcases found with before | ⟨x, member⟩
        · left
          rwa [contains, get?_set, if_neg same]
        · right
          refine ⟨x, (List.mem_cons.1 member).resolve_left fun equal => same ?_⟩
          exact congrArg Prod.fst equal

/-- There is an entry under every number that another one comes to. -/
theorem contains_renumber {s : Sparse α} {index : Nat} (found : s.contains index = true)
    (number : Nat → Nat) : (s.renumber number).contains (number index) = true := by
  obtain ⟨x, member⟩ := (contains_iff_mem ..).1 found
  exact contains_foldl_set _ (.inr ⟨x, List.mem_map.2 ⟨(index, x), member, rfl⟩⟩)

/-! ### The two ends -/

theorem firstIndex?_eq_some_iff (s : Sparse α) (index : Nat) :
    s.firstIndex? = some index ↔ IsLeast {i | s.contains i = true} index := by
  obtain ⟨entries, ascending⟩ := s
  simp only [firstIndex?, IsLeast, lowerBounds, Set.mem_ofPred_eq, contains_iff_mem]
  cases entries with
  | nil => simp
  | cons head rest =>
      obtain ⟨i, y⟩ := head
      obtain ⟨above, following⟩ := List.pairwise_cons.1 ascending
      simp only [List.head?_cons, Option.map_some, Option.some.injEq]
      constructor
      · rintro rfl
        refine ⟨⟨y, List.mem_cons_self ..⟩, ?_⟩
        rintro j ⟨x, member⟩
        rcases List.mem_cons.1 member with same | later
        · cases same
          exact Nat.le_refl _
        · exact Nat.le_of_lt (above (j, x) later)
      · rintro ⟨⟨x, member⟩, least⟩
        rcases List.mem_cons.1 member with same | later
        · cases same
          rfl
        · exact Nat.le_antisymm (Nat.le_of_lt (above (index, x) later))
            (least ⟨y, List.mem_cons_self ..⟩)

theorem lastIndex?_eq_some_iff (s : Sparse α) (index : Nat) :
    s.lastIndex? = some index ↔ IsGreatest {i | s.contains i = true} index := by
  obtain ⟨entries, ascending⟩ := s
  simp only [lastIndex?, IsGreatest, upperBounds, Set.mem_ofPred_eq, contains_iff_mem]
  rcases List.eq_nil_or_concat entries with rfl | ⟨front, ⟨i, y⟩, split⟩
  · simp
  · rw [List.concat_eq_append] at split
    subst split
    obtain ⟨-, -, ordered⟩ := List.pairwise_append.1 ascending
    have below : ∀ e ∈ front, e.1 < i := fun e member =>
      ordered e member (i, y) (List.mem_singleton_self _)
    simp only [List.getLast?_append, List.getLast?_singleton, Option.some_or, Option.map_some,
      Option.some.injEq, List.mem_append, List.mem_singleton]
    constructor
    · rintro rfl
      refine ⟨⟨y, .inr rfl⟩, ?_⟩
      rintro j ⟨x, member⟩
      rcases member with earlier | same
      · exact Nat.le_of_lt (below (j, x) earlier)
      · cases same
        exact Nat.le_refl _
    · rintro ⟨⟨x, member⟩, greatest⟩
      rcases member with earlier | same
      · exact Nat.le_antisymm (greatest ⟨y, .inr rfl⟩) (Nat.le_of_lt (below (index, x) earlier))
      · cases same
        rfl

/-! ### Sums over the entries -/

/-- What all entries come to together. -/
def total (f : Nat → α → Nat) (s : Sparse α) : Nat := (s.entries.map fun e => f e.1 e.2).sum

@[simp] theorem total_empty (f : Nat → α → Nat) : total f empty = 0 := rfl

private theorem sum_place (f : Nat → α → Nat) (index : Nat) (x : α) {entries : List (Nat × α)}
    (ascending : entries.Pairwise fun a b => a.1 < b.1) :
    ((place index x entries).map fun e => f e.1 e.2).sum + (lookup index entries).elim 0 (f index) =
      (entries.map fun e => f e.1 e.2).sum + f index x := by
  induction entries with
  | nil => simp [place, lookup]
  | cons head rest ih =>
      obtain ⟨i, y⟩ := head
      obtain ⟨above, following⟩ := List.pairwise_cons.1 ascending
      unfold place
      split
      · rename_i low
        have absent : lookup index ((i, y) :: rest) = none := by
          apply lookup_eq_none
          intro e member
          rcases List.mem_cons.1 member with rfl | later
          · exact Nat.ne_of_gt low
          · exact Nat.ne_of_gt (Nat.lt_trans low (above e later))
        rw [absent]
        simp only [List.map_cons, List.sum_cons, Option.elim_none]
        omega
      · split
        · rename_i same
          subst same
          simp only [List.map_cons, List.sum_cons, lookup, if_true, Option.elim_some]
          omega
        · rename_i notSame
          have others := ih following
          simp only [List.map_cons, List.sum_cons, lookup, if_neg (Ne.symm notSame)]
          omega

/-- An entry that is set takes the place of the one before it, and all others stay. -/
theorem total_set (f : Nat → α → Nat) (s : Sparse α) (index : Nat) (x : α) :
    (s.set index x).total f + (s.get? index).elim 0 (f index) = s.total f + f index x :=
  sum_place f index x s.ascending

theorem total_update (f : Nat → α → Nat) (s : Sparse α) (index : Nat) (fresh : α) (g : α → α) :
    (s.update index fresh g).total f + (s.get? index).elim 0 (f index) =
      s.total f + f index (g ((s.get? index).getD fresh)) :=
  total_set f s index _

theorem total_shift (f : Nat → α → Nat) (s : Sparse α) (start count : Nat) :
    (s.shift start count).total f = s.total fun index => f (moved start count index) := by
  simp only [total, shift, List.map_map, Function.comp_def]

theorem le_total (f : Nat → α → Nat) {s : Sparse α} {index : Nat} {x : α}
    (found : s.get? index = some x) : f index x ≤ s.total f := by
  obtain ⟨before, behind, split⟩ := List.append_of_mem ((get?_eq_some_iff ..).1 found)
  rw [total, split, List.map_append, List.map_cons, List.sum_append_nat, List.sum_cons]
  dsimp only
  omega

theorem total_mono {f g : Nat → α → Nat} {s : Sparse α}
    (le : ∀ index x, s.get? index = some x → f index x ≤ g index x) : s.total f ≤ s.total g := by
  have sums : ∀ entries : List (Nat × α), (∀ e ∈ entries, f e.1 e.2 ≤ g e.1 e.2) →
      (entries.map fun e => f e.1 e.2).sum ≤ (entries.map fun e => g e.1 e.2).sum := by
    intro entries bound
    induction entries with
    | nil => exact Nat.le_refl 0
    | cons head rest ih =>
        rw [List.map_cons, List.map_cons, List.sum_cons, List.sum_cons]
        apply Nat.add_le_add
        · exact bound head (List.mem_cons_self ..)
        · exact ih fun e later => bound e (List.mem_cons_of_mem _ later)
  exact sums s.entries fun e member => le e.1 e.2 ((get?_eq_some_iff ..).2 member)

theorem total_eq_zero {f : Nat → α → Nat} {s : Sparse α}
    (zero : ∀ index x, s.get? index = some x → f index x = 0) : s.total f = 0 := by
  rw [total, List.sum_eq_zero_iff_forall_eq_nat]
  intro n member
  obtain ⟨e, inside, rfl⟩ := List.mem_map.1 member
  exact zero e.1 e.2 ((get?_eq_some_iff ..).2 inside)

end Stencil.Sparse
