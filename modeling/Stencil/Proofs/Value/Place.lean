import Mathlib
import Stencil.Proofs.Value.Children

/-! Places in data: the way to a node through entries and items. -/

namespace Stencil

/-- A step down, to the entry under a key or to an item by its number. -/
inductive Step where
  | entry (key : String)
  | item (index : Nat)
  deriving DecidableEq

theorem mem_of_atKey? {α : Type} {key : String} {entries : List (String × α)} {value : α}
    (found : atKey? key entries = some value) : (key, value) ∈ entries := by
  induction entries with
  | nil => cases found
  | cons head rest ih =>
      obtain ⟨k, v⟩ := head
      rw [atKey?] at found
      by_cases same : k = key
      · rw [if_pos same] at found
        cases found
        rw [same]
        exact List.mem_cons_self ..
      · rw [if_neg same] at found
        exact List.mem_cons_of_mem _ (ih found)

theorem atKey?_of_mem {α : Type} {key : String} {entries : List (String × α)} {value : α}
    (distinct : (entries.map Prod.fst).Nodup) (member : (key, value) ∈ entries) :
    atKey? key entries = some value := by
  obtain ⟨i, there⟩ := List.getElem?_of_mem member
  exact atKey?_of_getElem? distinct there

namespace Value

def child? : Value → Step → Option Value
  | .mapping entries, .entry key => atKey? key entries
  | .sequence items, .item index => items[index]?
  | _, _ => none

/-- The node at a place, none where the way leaves the data. -/
def at? (v : Value) : List Step → Option Value
  | [] => some v
  | step :: rest => (v.child? step).bind fun inner => inner.at? rest

theorem sizeOf_child {v inner : Value} {step : Step} (found : v.child? step = some inner) :
    sizeOf inner < sizeOf v := by
  unfold child? at found
  split at found
  · rename_i entries key
    have member := List.sizeOf_lt_of_mem (mem_of_atKey? found)
    simp only [Prod.mk.sizeOf_spec, mapping.sizeOf_spec] at member ⊢
    omega
  · rename_i items index
    have member := List.sizeOf_lt_of_mem (List.mem_of_getElem? found)
    simp only [sequence.sizeOf_spec]
    omega
  · cases found

/-- What holds of a node as soon as it holds of all that stands directly below holds of all data. -/
theorem childrenInduction {P : Value → Prop}
    (node : ∀ v, (∀ step inner, v.child? step = some inner → P inner) → P v) (v : Value) : P v :=
  node v fun _ inner found =>
    have := sizeOf_child found
    childrenInduction node inner
termination_by sizeOf v

/-- No mapping within the data has a key twice. -/
def Keyed (v : Value) : Prop :=
  ∀ place entries, v.at? place = some (.mapping entries) → (entries.map Prod.fst).Nodup

theorem Keyed.here {v : Value} (keyed : v.Keyed) (entries : List (String × Value))
    (mapping : v = .mapping entries) : (entries.map Prod.fst).Nodup :=
  keyed [] entries (congrArg some mapping)

theorem Keyed.child {v inner : Value} (keyed : v.Keyed) {step : Step}
    (found : v.child? step = some inner) : inner.Keyed := by
  intro place entries reached
  apply keyed (step :: place)
  rw [at?, found, Option.bind_some, reached]

theorem keyed_of_children {v : Value}
    (here : ∀ entries, v = .mapping entries → (entries.map Prod.fst).Nodup)
    (below : ∀ step inner, v.child? step = some inner → inner.Keyed) : v.Keyed := by
  intro place entries reached
  cases place with
  | nil => exact here entries (Option.some.inj reached)
  | cons step rest =>
      obtain ⟨inner, found, onwards⟩ := Option.bind_eq_some_iff.1 reached
      exact below step inner found rest entries onwards

theorem keyed_mapping {entries : List (String × Value)} (distinct : (entries.map Prod.fst).Nodup)
    (each : ∀ entry ∈ entries, entry.2.Keyed) : (mapping entries).Keyed := by
  refine keyed_of_children (fun same equal => ?_) (fun step inner found => ?_)
  · cases equal
    exact distinct
  · cases step with
    | entry key => exact each _ (mem_of_atKey? found)
    | item index => cases found

theorem keyed_sequence {items : List Value} (each : ∀ item ∈ items, item.Keyed) :
    (sequence items).Keyed := by
  refine keyed_of_children (fun entries equal => nomatch equal) (fun step inner found => ?_)
  cases step with
  | entry key => cases found
  | item index => exact each _ (List.mem_of_getElem? found)

theorem keyed_leaf {v : Value} (scalar : ∀ entries, v ≠ .mapping entries)
    (leaf : ∀ items, v ≠ .sequence items) : v.Keyed := by
  refine keyed_of_children (fun entries equal => absurd equal (scalar entries)) ?_
  intro step inner found
  unfold child? at found
  split at found
  · exact absurd rfl (scalar _)
  · exact absurd rfl (leaf _)
  · cases found

end Value

end Stencil
