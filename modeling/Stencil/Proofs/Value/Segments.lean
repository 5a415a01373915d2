import Stencil.Value.Path

/-! The segments of a path hold no colon, and a text without a colon is one segment. What a path
leads to is named by its last segment, so nothing is found under a name that no path could hold as
one segment. -/

namespace Stencil

namespace Path

theorem not_mem_of_mem_splitOn {mark : Char} {text segment : List Char}
    (member : segment ∈ text.splitOn mark) : mark ∉ segment := by
  induction text generalizing segment with
  | nil =>
      cases List.mem_singleton.1 member
      exact List.not_mem_nil
  | cons c rest ih =>
      rw [List.splitOn_cons_eq_if_modifyHead] at member
      split at member
      · rcases List.mem_cons.1 member with rfl | later
        · exact List.not_mem_nil
        · exact ih later
      · rename_i apart
        cases inner : rest.splitOn mark with
        | nil => exact absurd inner (List.splitOn_ne_nil mark rest)
        | cons first others =>
            rw [inner, List.modifyHead_cons] at member
            rw [inner] at ih
            rcases List.mem_cons.1 member with rfl | later
            · intro inside
              rcases List.mem_cons.1 inside with same | behind
              · exact apart (beq_iff_eq.2 same.symm)
              · exact ih (List.mem_cons_self ..) behind
            · exact ih (List.mem_cons_of_mem _ later)

/-- A text that a path can hold as one segment under which something is found. -/
def IsSegment (key : String) : Prop := key ≠ "" ∧ ':' ∉ key.toList

instance (key : String) : Decidable (IsSegment key) :=
  inferInstanceAs (Decidable (key ≠ "" ∧ ':' ∉ key.toList))

theorem segments_of_isSegment {key : String} (whole : IsSegment key) : segments key = [key] := by
  rw [segments, List.splitOn_eq_singleton whole.2, List.map_singleton,
    String.ofList_toList]

theorem not_mem_of_mem_segments {path segment : String} (member : segment ∈ segments path) :
    ':' ∉ segment.toList := by
  obtain ⟨text, split, rfl⟩ := List.mem_map.1 member
  rw [String.toList_ofList]
  exact not_mem_of_mem_splitOn split

end Path

namespace Value

theorem ne_empty_of_step? {node next : Value} {segment : String} {format : Option String}
    (found : node.step? segment = some (next, format)) : segment ≠ "" := by
  rintro rfl
  cases found

/-- What segments lead to is named by the last of them. -/
theorem key_of_follow? {root : Value} {segments : List String} {found : Resolved}
    (reached : root.follow? segments = some found) : found.key ∈ segments ∧ found.key ≠ "" := by
  induction segments generalizing root with
  | nil => cases reached
  | cons segment rest ih =>
      cases rest with
      | nil =>
          obtain ⟨⟨next, format⟩, step, rfl⟩ := Option.map_eq_some_iff.1 reached
          exact ⟨List.mem_singleton_self segment, ne_empty_of_step? step⟩
      | cons following others =>
          obtain ⟨⟨next, format⟩, -, onwards⟩ := Option.bind_eq_some_iff.1 reached
          obtain ⟨later, named⟩ := ih onwards
          exact ⟨List.mem_cons_of_mem _ later, named⟩

theorem isSegment_of_resolve? {root : Value} {path : String} {found : Resolved}
    (reached : root.resolve? path = some found) : Path.IsSegment found.key := by
  obtain ⟨member, named⟩ := key_of_follow? reached
  exact ⟨named, Path.not_mem_of_mem_segments member⟩

/-- Under one segment a mapping is asked for that key. -/
theorem resolve?_mapping {key : String} (whole : Path.IsSegment key)
    (entries : List (String × Value)) :
    (mapping entries).resolve? key =
      (atKey? key entries).map fun value => ⟨key, value, none⟩ := by
  rw [resolve?, Path.segments_of_isSegment whole, follow?, step?, if_neg whole.1, Option.map_map]
  rfl

end Value

end Stencil
