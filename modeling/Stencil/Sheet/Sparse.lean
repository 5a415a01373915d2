/-! Entries under ascending indices with gaps between them, as the rows of a sheet and the cells
of a row. -/

namespace Stencil

structure Sparse (α : Type) where
  entries : List (Nat × α)
  ascending : entries.Pairwise fun a b => a.1 < b.1

namespace Sparse

variable {α : Type}

theorem ext {first second : Sparse α} (same : first.entries = second.entries) : first = second := by
  cases first
  cases second
  cases same
  rfl

instance [DecidableEq α] : DecidableEq (Sparse α) := fun first second =>
  if same : first.entries = second.entries then isTrue (ext same)
  else isFalse fun equal => same (congrArg entries equal)

def empty : Sparse α := ⟨[], List.Pairwise.nil⟩

instance : Inhabited (Sparse α) := ⟨empty⟩

def lookup (index : Nat) : List (Nat × α) → Option α
  | [] => none
  | (i, x) :: rest => if i = index then some x else lookup index rest

def get? (s : Sparse α) (index : Nat) : Option α := lookup index s.entries

def contains (s : Sparse α) (index : Nat) : Bool := (s.get? index).isSome

def firstIndex? (s : Sparse α) : Option Nat := s.entries.head?.map Prod.fst

def lastIndex? (s : Sparse α) : Option Nat := s.entries.getLast?.map Prod.fst

/-- Put an entry at its place, in the place of the one with its index if there is one. -/
def place (index : Nat) (x : α) : List (Nat × α) → List (Nat × α)
  | [] => [(index, x)]
  | (i, y) :: rest =>
      if index < i then (index, x) :: (i, y) :: rest
      else if index = i then (index, x) :: rest
      else (i, y) :: place index x rest

private theorem index_of_mem_place {index : Nat} {x : α} {e : Nat × α} {entries : List (Nat × α)}
    (member : e ∈ place index x entries) : e.1 = index ∨ e ∈ entries := by
  induction entries with
  | nil => simp_all [place]
  | cons head rest ih =>
      obtain ⟨i, y⟩ := head
      unfold place at member
      split at member
      · simp only [List.mem_cons] at member ⊢
        rcases member with rfl | h
        · exact .inl rfl
        · exact .inr h
      · split at member
        · simp only [List.mem_cons] at member ⊢
          rcases member with rfl | h
          · exact .inl rfl
          · exact .inr (.inr h)
        · simp only [List.mem_cons] at member ⊢
          rcases member with rfl | h
          · exact .inr (.inl rfl)
          · exact (ih h).imp_right .inr

theorem place_ascending (index : Nat) (x : α) {entries : List (Nat × α)}
    (ascending : entries.Pairwise fun a b => a.1 < b.1) :
    (place index x entries).Pairwise fun a b => a.1 < b.1 := by
  induction entries with
  | nil => simp [place]
  | cons head rest ih =>
      obtain ⟨i, y⟩ := head
      obtain ⟨above, following⟩ := List.pairwise_cons.1 ascending
      unfold place
      split
      · rename_i low
        refine List.pairwise_cons.2 ⟨fun e member => ?_, ascending⟩
        rcases List.mem_cons.1 member with rfl | later
        · exact low
        · exact Nat.lt_trans low (above e later)
      · split
        · rename_i same
          subst same
          exact List.pairwise_cons.2 ⟨above, following⟩
        · rename_i notLow notSame
          refine List.pairwise_cons.2 ⟨fun e member => ?_, ih following⟩
          rcases index_of_mem_place member with same | later
          · simp only [same]
            omega
          · exact above e later

def set (s : Sparse α) (index : Nat) (x : α) : Sparse α :=
  ⟨place index x s.entries, place_ascending index x s.ascending⟩

/-- Later entries win over earlier ones with their index. -/
def ofList (entries : List (Nat × α)) : Sparse α :=
  entries.foldl (fun s (index, x) => s.set index x) empty

/-- Give every entry the index that its own comes to. Of those that come to the same index the last
one stays. -/
def renumber (s : Sparse α) (number : Nat → Nat) : Sparse α :=
  ofList (s.entries.map fun (index, x) => (number index, x))

/-- Change the entry at an index, or a fresh one where there is none. -/
def update (s : Sparse α) (index : Nat) (fresh : α) (f : α → α) : Sparse α :=
  s.set index (f ((s.get? index).getD fresh))

def moved (start count index : Nat) : Nat := if start ≤ index then index + count else index

theorem moved_lt_moved {start count a b : Nat} (lt : a < b) :
    moved start count a < moved start count b := by
  unfold moved
  split <;> split <;> omega

/-- Move the entries from `start` on up by `count`. -/
def shift (s : Sparse α) (start count : Nat) : Sparse α :=
  ⟨s.entries.map fun (index, x) => (moved start count index, x), by
    rw [List.pairwise_map]
    exact s.ascending.imp fun lt => moved_lt_moved lt⟩

theorem lookup_place_self (index : Nat) (x : α) (entries : List (Nat × α)) :
    lookup index (place index x entries) = some x := by
  induction entries with
  | nil => simp [place, lookup]
  | cons head rest ih =>
      obtain ⟨i, y⟩ := head
      unfold place
      split
      · simp [lookup]
      · split
        · simp [lookup]
        · rename_i notSame
          simp [lookup, Ne.symm notSame, ih]

theorem lookup_place_of_ne {index other : Nat} (apart : other ≠ index) (x : α)
    (entries : List (Nat × α)) : lookup other (place index x entries) = lookup other entries := by
  induction entries with
  | nil => simp [place, lookup, apart.symm]
  | cons head rest ih =>
      obtain ⟨i, y⟩ := head
      unfold place
      split
      · simp [lookup, apart.symm]
      · split
        · rename_i same
          subst same
          simp [lookup, apart.symm]
        · simp only [lookup, ih]

@[simp] theorem get?_set_self (s : Sparse α) (index : Nat) (x : α) :
    (s.set index x).get? index = some x := lookup_place_self index x s.entries

theorem get?_set_of_ne (s : Sparse α) {index other : Nat} (apart : other ≠ index) (x : α) :
    (s.set index x).get? other = s.get? other := lookup_place_of_ne apart x s.entries

@[simp] theorem get?_empty (index : Nat) : (empty : Sparse α).get? index = none := rfl

theorem get?_shift_moved (s : Sparse α) (start count index : Nat) :
    (s.shift start count).get? (moved start count index) = s.get? index := by
  obtain ⟨entries, ascending⟩ := s
  simp only [get?, shift]
  clear ascending
  induction entries with
  | nil => rfl
  | cons head rest ih =>
      obtain ⟨i, y⟩ := head
      have injective : moved start count i = moved start count index ↔ i = index := by
        unfold moved
        split <;> split <;> omega
      simp only [List.map_cons, lookup, injective, ih]

end Sparse

end Stencil
