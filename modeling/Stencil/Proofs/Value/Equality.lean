import Stencil.Proofs.Value.Place
import Stencil.Sheet.Cell
import Stencil.Value.Same

/-! Equality of values and of cells. Two values are equal exactly if they hold alike nodes at every
place, so equality is reflexive and symmetric. Only floats keep it from being transitive, since they
are compared up to two steps. -/

namespace Stencil

namespace Binary64

/-- How many steps two patterns are apart, the shorter way around the circle. -/
def steps (x y : Binary64) : Nat := min (x.rank - y.rank).toNat (y.rank - x.rank).toNat

theorem steps_comm (x y : Binary64) : x.steps y = y.steps x := Nat.min_comm ..

theorem near_iff (x y : Binary64) : x.near y = true ↔ x.steps y ≤ 2 := by
  have first := x.rank.toNat_lt
  have second := y.rank.toNat_lt
  have two : (2 : UInt64).toNat = 2 := rfl
  simp only [near, steps, Bool.or_eq_true, decide_eq_true_eq, UInt64.le_iff_toNat_le,
    UInt64.toNat_sub, UInt64.toNat_ofNat', two]
  omega

theorem steps_triangle (x y z : Binary64) : x.steps z ≤ x.steps y + y.steps z := by
  have first := x.rank.toNat_lt
  have second := y.rank.toNat_lt
  have third := z.rank.toNat_lt
  simp only [steps, UInt64.toNat_sub]
  omega

end Binary64

namespace Value

/-- Whether two nodes are equal by themselves, whatever stands below them. -/
def alike : Value → Value → Bool
  | .null, .null => true
  | .bool a, .bool b => a == b
  | .int a, .int b => a == b
  | .float a, .float b => a.near b
  | .text a, .text b => a == b
  | .date a, .date b => a == b
  | .sequence _, .sequence _ => true
  | .mapping _, .mapping _ => true
  | .record a _ _ _ _, .record b _ _ _ _ => a == b
  | _, _ => false

/-- The values at one place are there in both, and equal. -/
abbrev BothSame : Option Value → Option Value → Prop := Option.Rel fun a b => a.same b = true

theorem sameItems_iff {first second : List Value} :
    sameItems first second = true ↔ ∀ i : Nat, BothSame first[i]? second[i]? := by
  induction first generalizing second with
  | nil =>
      cases second with
      | nil =>
          rw [sameItems]
          exact iff_of_true rfl fun i => .none
      | cons b rest =>
          simp only [sameItems]
          refine iff_of_false Bool.false_ne_true fun all => ?_
          cases all 0
  | cons a others ih =>
      cases second with
      | nil =>
          simp only [sameItems]
          refine iff_of_false Bool.false_ne_true fun all => ?_
          cases all 0
      | cons b rest =>
          rw [sameItems, Bool.and_eq_true, ih]
          constructor
          · rintro ⟨heads, tails⟩ i
            cases i with
            | zero => exact .some heads
            | succ i => exact tails i
          · intro all
            refine ⟨?_, fun i => all (i + 1)⟩
            cases all 0 with
            | some heads => exact heads

theorem sameEntries_iff {first second : List (String × Value)} :
    sameEntries first second = true ↔ ∀ key a, (key, a) ∈ first →
      ∃ b, atKey? key second = some b ∧ a.same b = true := by
  induction first with
  | nil =>
      rw [sameEntries]
      exact iff_of_true rfl fun key a member => nomatch member
  | cons head rest ih =>
      obtain ⟨k, v⟩ := head
      rw [sameEntries, Bool.and_eq_true, ih]
      constructor
      · rintro ⟨here, others⟩ key a member
        rcases List.mem_cons.1 member with same | later
        · cases same
          cases found : atKey? k second with
          | none =>
              rw [found] at here
              cases here
          | some b =>
              rw [found] at here
              exact ⟨b, rfl, here⟩
        · exact others key a later
      · intro all
        obtain ⟨b, found, same⟩ := all k v (List.mem_cons_self ..)
        refine ⟨?_, fun key a member => all key a (List.mem_cons_of_mem _ member)⟩
        rw [found]
        exact same

/-- Mappings are equal if they have as many entries and each entry of one has an equal one in the
other. Then they have the same keys. -/
theorem sameMapping_iff {first second : List (String × Value)}
    (distinctFirst : (first.map Prod.fst).Nodup) (distinctSecond : (second.map Prod.fst).Nodup) :
    (mapping first).same (mapping second) = true ↔
      ∀ key, BothSame (atKey? key first) (atKey? key second) := by
  have keys : ∀ {entries : List (String × Value)} {key : String},
      key ∈ entries.map Prod.fst ↔ ∃ value, (key, value) ∈ entries := by simp
  rw [same, Bool.and_eq_true, beq_iff_eq, sameEntries_iff]
  constructor
  · rintro ⟨count, each⟩ key
    have within : first.map Prod.fst ⊆ second.map Prod.fst := by
      intro k member
      obtain ⟨a, inside⟩ := keys.1 member
      obtain ⟨b, found, -⟩ := each k a inside
      exact keys.2 ⟨b, mem_of_atKey? found⟩
    have rearranged : (first.map Prod.fst).Perm (second.map Prod.fst) :=
      (distinctFirst.subperm within).perm_of_length_le (by simp [count])
    cases left : atKey? key first with
    | some a =>
        obtain ⟨b, found, equal⟩ := each key a (mem_of_atKey? left)
        rw [found]
        exact .some equal
    | none =>
        cases right : atKey? key second with
        | none => exact .none
        | some b =>
            have known := rearranged.mem_iff.2 (keys.2 ⟨b, mem_of_atKey? right⟩)
            obtain ⟨a, member⟩ := keys.1 known
            rw [atKey?_of_mem distinctFirst member] at left
            cases left
  · intro all
    have sameKeys : ∀ key, key ∈ first.map Prod.fst ↔ key ∈ second.map Prod.fst := by
      intro key
      rw [keys, keys]
      have here := all key
      constructor
      · rintro ⟨a, member⟩
        rw [atKey?_of_mem distinctFirst member] at here
        generalize found : atKey? key second = there at here
        cases here
        exact ⟨_, mem_of_atKey? found⟩
      · rintro ⟨b, member⟩
        rw [atKey?_of_mem distinctSecond member] at here
        generalize found : atKey? key first = there at here
        cases here
        exact ⟨_, mem_of_atKey? found⟩
    have rearranged := (List.perm_ext_iff_of_nodup distinctFirst distinctSecond).2 sameKeys
    refine ⟨by simpa using rearranged.length_eq, fun key a member => ?_⟩
    have here := all key
    rw [atKey?_of_mem distinctFirst member] at here
    generalize found : atKey? key second = there at here
    cases here with
    | some equal => exact ⟨_, rfl, equal⟩

/-- Two nodes are equal if they are alike and all that stands directly below them is equal. -/
theorem same_iff_children {a b : Value}
    (keyedA : ∀ entries, a = .mapping entries → (entries.map Prod.fst).Nodup)
    (keyedB : ∀ entries, b = .mapping entries → (entries.map Prod.fst).Nodup) :
    a.same b = true ↔
      a.alike b = true ∧ ∀ step, BothSame (a.child? step) (b.child? step) := by
  cases a with
  | sequence first =>
      cases b with
      | sequence second =>
          rw [same, sameItems_iff]
          refine ⟨fun all => ⟨rfl, fun step => ?_⟩, fun both i => both.2 (.item i)⟩
          cases step with
          | entry key => exact .none
          | item index => exact all index
      | _ => simp [same, alike]
  | mapping first =>
      cases b with
      | mapping second =>
          rw [sameMapping_iff (keyedA first rfl) (keyedB second rfl)]
          refine ⟨fun all => ⟨rfl, fun step => ?_⟩, fun both key => both.2 (.entry key)⟩
          cases step with
          | entry key => exact all key
          | item index => exact .none
      | _ => simp [same, alike]
  | _ => cases b <;> simp [same, alike, child?]

/-- The nodes at one place are there in both, and alike. -/
abbrev BothAlike : Option Value → Option Value → Prop := Option.Rel fun a b => a.alike b = true

/-- Values are equal exactly if they hold alike nodes at every place. -/
theorem same_iff_at {a b : Value} (keyedA : a.Keyed) (keyedB : b.Keyed) :
    a.same b = true ↔ ∀ place, BothAlike (a.at? place) (b.at? place) := by
  constructor
  · intro equal place
    induction place generalizing a b with
    | nil => exact .some ((same_iff_children keyedA.here keyedB.here).1 equal).1
    | cons step rest ih =>
        have below := ((same_iff_children keyedA.here keyedB.here).1 equal).2 step
        rw [at?, at?]
        cases first : a.child? step <;> cases second : b.child? step <;> rw [first, second] at below
        · exact .none
        · cases below
        · cases below
        · cases below with
          | some inner => exact ih (keyedA.child first) (keyedB.child second) inner
  · induction a using childrenInduction generalizing b with
    | node a ih =>
        intro all
        refine (same_iff_children keyedA.here keyedB.here).2 ⟨?_, fun step => ?_⟩
        · cases all [] with
          | some here => exact here
        · have below := fun rest => all (step :: rest)
          simp only [at?] at below
          cases first : a.child? step <;> cases second : b.child? step <;>
            simp only [first, second, Option.bind_some, Option.bind_none] at below
          · exact .none
          · cases below []
          · cases below []
          · exact .some (ih step _ first (keyedA.child first) (keyedB.child second) below)

/-! ### Reflexivity and symmetry -/

theorem alike_refl (v : Value) : v.alike v = true := by
  cases v <;> simp [alike, Binary64.near_refl]

theorem alike_symm {a b : Value} (first : a.alike b = true) : b.alike a = true := by
  cases a <;> cases b <;> simp_all [alike, Binary64.near_iff, Binary64.steps_comm]

theorem same_refl {v : Value} (keyed : v.Keyed) : v.same v = true := by
  rw [same_iff_at keyed keyed]
  intro place
  cases v.at? place with
  | none => exact .none
  | some inner => exact .some inner.alike_refl

theorem same_symm {a b : Value} (keyedA : a.Keyed) (keyedB : b.Keyed)
    (equal : a.same b = true) : b.same a = true := by
  rw [same_iff_at keyedA keyedB] at equal
  rw [same_iff_at keyedB keyedA]
  intro place
  have here := equal place
  generalize a.at? place = first at here ⊢
  generalize b.at? place = second at here ⊢
  cases here with
  | none => exact .none
  | some inner => exact .some (alike_symm inner)

/-! ### Transitivity -/

/-- Only floats can be alike to one node in the middle and not to one another. -/
theorem alike_trans {a b c : Value} (first : a.alike b = true) (second : b.alike c = true)
    (floats : ∀ x z, a = .float x → c = .float z → x.steps z ≤ 2) : a.alike c = true := by
  cases a with
  | float x =>
      cases b with
      | float y =>
          cases c with
          | float z => exact (Binary64.near_iff x z).2 (floats x z rfl rfl)
          | _ => cases second
      | _ => cases first
  | _ =>
      cases b <;> simp [alike] at first
      all_goals cases c <;> simp_all [alike]

/-- No floats at one place are more than `n` steps apart. -/
def FloatsWithin (n : Nat) (a b : Value) : Prop :=
  ∀ place x z, a.at? place = some (.float x) → b.at? place = some (.float z) → x.steps z ≤ n

section

variable {a b c : Value} (keyedA : a.Keyed) (keyedB : b.Keyed) (keyedC : c.Keyed)

include keyedA keyedB

theorem floatsWithin_of_same (equal : a.same b = true) : FloatsWithin 2 a b := by
  intro place x z left right
  have here := (same_iff_at keyedA keyedB).1 equal place
  rw [left, right] at here
  cases here with
  | some near => exact (Binary64.near_iff x z).1 near

include keyedC

/-- Two values that are both equal to a third one are equal to one another unless floats in them are
too far apart. -/
theorem same_iff_floatsWithin (first : a.same b = true) (second : b.same c = true) :
    a.same c = true ↔ FloatsWithin 2 a c := by
  refine ⟨floatsWithin_of_same keyedA keyedC, fun within => ?_⟩
  rw [same_iff_at keyedA keyedB] at first
  rw [same_iff_at keyedB keyedC] at second
  rw [same_iff_at keyedA keyedC]
  intro place
  have left := first place
  have right := second place
  have floats := within place
  generalize a.at? place = nodeA at left floats ⊢
  generalize b.at? place = nodeB at left right
  generalize c.at? place = nodeC at right floats ⊢
  cases left with
  | none =>
      cases right with
      | none => exact .none
  | some front =>
      cases right with
      | some back =>
          refine .some (alike_trans front back fun x z left right => ?_)
          exact floats x z (congrArg some left) (congrArg some right)

/-- They are never more than twice as far apart. -/
theorem floatsWithin_of_same_of_same (first : a.same b = true) (second : b.same c = true) :
    FloatsWithin 4 a c := by
  intro place x z left right
  have front := (same_iff_at keyedA keyedB).1 first place
  have back := (same_iff_at keyedB keyedC).1 second place
  rw [left] at front
  rw [right] at back
  generalize b.at? place = middle at front back
  cases front with
  | @some _ node alike =>
      cases back with
      | some near =>
          cases node with
          | float y =>
              have one := (Binary64.near_iff x y).1 alike
              have other := (Binary64.near_iff y z).1 near
              exact Nat.le_trans (Binary64.steps_triangle x y z) (Nat.add_le_add one other)
          | _ => cases alike

end

end Value

/-! ### Cells -/

namespace CellValue

theorem same_refl (v : CellValue) : v.same v = true := by
  cases v <;> simp [same, Binary64.near_refl]

theorem same_symm {p q : CellValue} (equal : p.same q = true) : q.same p = true := by
  cases p <;> cases q <;> simp_all [same, Binary64.near_iff, Binary64.steps_comm]

/-- Two floats are not more than `n` steps apart. -/
def FloatsWithin (n : Nat) (p q : CellValue) : Prop :=
  ∀ x z, p = .float x → q = .float z → x.steps z ≤ n

theorem same_iff_floatsWithin {p q r : CellValue} (first : p.same q = true)
    (second : q.same r = true) : p.same r = true ↔ FloatsWithin 2 p r := by
  cases p with
  | float x =>
      cases r with
      | float z => simp [same, Binary64.near_iff, FloatsWithin]
      | _ => cases q <;> simp [same] at first second
  | _ =>
      refine iff_of_true ?_ (fun x z left => nomatch left)
      cases q <;> simp [same] at first
      all_goals cases r <;> simp_all [same]

theorem floatsWithin_of_same_of_same {p q r : CellValue} (first : p.same q = true)
    (second : q.same r = true) : FloatsWithin 4 p r := by
  rintro x z rfl rfl
  cases q with
  | float y =>
      have one := (Binary64.near_iff x y).1 first
      have other := (Binary64.near_iff y z).1 second
      exact Nat.le_trans (Binary64.steps_triangle x y z) (Nat.add_le_add one other)
  | _ => cases first

end CellValue

/-- Equality is reflexive and symmetric. Values that are both equal to a third are equal unless
floats at one place are more than two steps apart, and these are at most four. Cells are compared
alike. -/
theorem same_up_to_floats {a b c : Value} (keyedA : a.Keyed) (keyedB : b.Keyed)
    (keyedC : c.Keyed) :
    (a.same a = true ∧ (a.same b = true → b.same a = true) ∧
      (a.same b = true → b.same c = true → a.FloatsWithin 4 c ∧
        (a.same c = true ↔ a.FloatsWithin 2 c))) ∧
    ∀ p q r : CellValue, p.same p = true ∧ (p.same q = true → q.same p = true) ∧
      (p.same q = true → q.same r = true → p.FloatsWithin 4 r ∧
        (p.same r = true ↔ p.FloatsWithin 2 r)) := by
  refine ⟨⟨Value.same_refl keyedA, Value.same_symm keyedA keyedB, fun first second => ?_⟩,
    fun p q r => ⟨p.same_refl, CellValue.same_symm, fun first second => ?_⟩⟩
  · exact ⟨Value.floatsWithin_of_same_of_same keyedA keyedB keyedC first second,
      Value.same_iff_floatsWithin keyedA keyedB keyedC first second⟩
  · exact ⟨CellValue.floatsWithin_of_same_of_same first second,
      CellValue.same_iff_floatsWithin first second⟩

/-- The float that many steps above one. -/
def aboveOne (n : UInt64) : Binary64 := ⟨0x3FF0000000000000 + n⟩

/-- A named share, which comes first or last. -/
def shareOf (n : UInt64) (first : Bool) : Value :=
  let entries := [("Share", .sequence [.float (aboveOne n)]), ("Name", .text "Ann")]
  .mapping (if first then entries else entries.reverse)

theorem keyed_shareOf (n : UInt64) (first : Bool) : (shareOf n first).Keyed := by
  have share : (Value.sequence [.float (aboveOne n)]).Keyed :=
    Value.keyed_sequence (List.forall_mem_singleton.2 (Value.keyed_leaf (by simp) (by simp)))
  have name : (Value.text "Ann").Keyed := Value.keyed_leaf (by simp) (by simp)
  cases first
  · exact Value.keyed_mapping (by decide : ["Name", "Share"].Nodup)
      (List.forall_mem_cons.2 ⟨name, List.forall_mem_singleton.2 share⟩)
  · exact Value.keyed_mapping (by decide : ["Share", "Name"].Nodup)
      (List.forall_mem_cons.2 ⟨share, List.forall_mem_singleton.2 name⟩)

/-- Two steps up and one step down again, with the entries in another order on the way. -/
theorem shares_up_to_floats :
    ((shareOf 0 true).Keyed ∧ (shareOf 2 false).Keyed ∧ (shareOf 1 true).Keyed) ∧
      (shareOf 0 true).same (shareOf 2 false) = true ∧
      (shareOf 2 false).same (shareOf 1 true) = true ∧
      (shareOf 2 false).same (shareOf 0 true) = true ∧
      (shareOf 0 true).FloatsWithin 4 (shareOf 1 true) ∧
      (shareOf 0 true).same (shareOf 1 true) = true ∧
      (shareOf 0 true).FloatsWithin 2 (shareOf 1 true) := by
  have keyed := keyed_shareOf
  have up : (shareOf 0 true).same (shareOf 2 false) = true := by decide
  have down : (shareOf 2 false).same (shareOf 1 true) = true := by decide
  have level : (shareOf 0 true).same (shareOf 1 true) = true := by decide
  obtain ⟨⟨-, symmetric, passOn⟩, -⟩ :=
    same_up_to_floats (keyed 0 true) (keyed 2 false) (keyed 1 true)
  obtain ⟨four, two⟩ := passOn up down
  exact ⟨⟨keyed 0 true, keyed 2 false, keyed 1 true⟩, up, down, symmetric up, four, level,
    two.1 level⟩

/-- Two steps up and two more are too many, for values and for cells. -/
theorem shares_drift :
    ((Value.float (aboveOne 0)).same (.float (aboveOne 2)) = true ∧
      (Value.float (aboveOne 2)).same (.float (aboveOne 4)) = true ∧
      ¬(Value.float (aboveOne 0)).same (.float (aboveOne 4)) = true) ∧
    (CellValue.float (aboveOne 0)).same (.float (aboveOne 2)) = true ∧
      (CellValue.float (aboveOne 2)).same (.float (aboveOne 4)) = true ∧
      ¬(CellValue.float (aboveOne 0)).same (.float (aboveOne 4)) = true := by
  decide

end Stencil
