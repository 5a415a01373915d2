import Stencil.Fill.Item
import Stencil.Proofs.Placeholder.Whole

/-! Data without marks. Whatever a placeholder looks up in it is rendered without a mark. -/

namespace Stencil

/-- No text that is rendered from the data has a mark in it. -/
structure Source.Unmarked (source : Source) (options : FillOptions) : Prop where
  values : ∀ path found, source.get? path = some found →
    Stencil.Unmarked (found.render options)
  items : ∀ path items, source.items? path = some items → ∀ item ∈ items, ∀ property found,
    itemValue? item property = some found → Stencil.Unmarked (found.1.render options found.2)

namespace Value

mutual

/-- Whether a value and all values within it are rendered without marks. A record does not pass, as
one cannot list what it answers. -/
def isUnmarked (options : FillOptions) : Value → Bool
  | .record .. => false
  | .sequence items =>
      lacksMarks (render options none (.sequence items)) && allUnmarked options items
  | .mapping entries =>
      lacksMarks (render options none (.mapping entries)) && entriesUnmarked options entries
  | value => lacksMarks (value.render options none)

def allUnmarked (options : FillOptions) : List Value → Bool
  | [] => true
  | item :: rest => item.isUnmarked options && allUnmarked options rest

def entriesUnmarked (options : FillOptions) : List (String × Value) → Bool
  | [] => true
  | (_, value) :: rest => value.isUnmarked options && entriesUnmarked options rest

end

variable {options : FillOptions} {value : Value}

theorem unmarked_render (checked : value.isUnmarked options = true) :
    Unmarked (value.render options none) := by
  cases value with
  | record _ _ _ _ _ =>
      rw [isUnmarked] at checked
      cases checked
  | sequence items =>
      rw [isUnmarked, Bool.and_eq_true] at checked
      exact lacksMarks_iff.1 checked.1
  | mapping entries =>
      rw [isUnmarked, Bool.and_eq_true] at checked
      exact lacksMarks_iff.1 checked.1
  | _ => exact lacksMarks_iff.1 checked

theorem isUnmarked_of_mem {items : List Value} (checked : allUnmarked options items = true)
    {item : Value} (member : item ∈ items) : item.isUnmarked options = true := by
  induction items with
  | nil => cases member
  | cons first rest ih =>
      rw [allUnmarked, Bool.and_eq_true] at checked
      rcases List.mem_cons.1 member with rfl | later
      · exact checked.1
      · exact ih checked.2 later

theorem isUnmarked_of_atKey? {entries : List (String × Value)}
    (checked : entriesUnmarked options entries = true) {key : String} {value : Value}
    (found : atKey? key entries = some value) : value.isUnmarked options = true := by
  induction entries with
  | nil => cases found
  | cons first rest ih =>
      obtain ⟨k, v⟩ := first
      rw [entriesUnmarked, Bool.and_eq_true] at checked
      rw [atKey?] at found
      split at found
      · cases found
        exact checked.1
      · exact ih checked.2 found

/-- A step leads to data of the same kind, and there is no format to it. -/
theorem isUnmarked_of_step? (checked : value.isUnmarked options = true) {segment : String}
    {next : Value} {format : Option String} (found : value.step? segment = some (next, format)) :
    next.isUnmarked options = true ∧ format = none := by
  unfold step? at found
  split at found
  · cases found
  · split at found
    · obtain ⟨inner, held, same⟩ := Option.map_eq_some_iff.1 found
      cases same
      rw [isUnmarked, Bool.and_eq_true] at checked
      exact ⟨isUnmarked_of_atKey? checked.2 held, rfl⟩
    · rw [isUnmarked] at checked
      cases checked
    · cases found

theorem isUnmarked_of_follow? {segments : List String} {found : Resolved}
    (checked : value.isUnmarked options = true) (leads : value.follow? segments = some found) :
    found.value.isUnmarked options = true ∧ found.format = none := by
  fun_induction follow? value segments with
  | case1 => cases leads
  | case2 value last =>
      obtain ⟨⟨next, format⟩, step, rfl⟩ := Option.map_eq_some_iff.1 leads
      exact isUnmarked_of_step? checked step
  | case3 value segment rest _ ih =>
      obtain ⟨⟨next, format⟩, step, onwards⟩ := Option.bind_eq_some_iff.1 leads
      exact ih next (isUnmarked_of_step? checked step).1 onwards

end Value

theorem Source.unmarked_of_isUnmarked {source : Source} {options : FillOptions}
    (checked : source.root.isUnmarked options = true) : source.Unmarked options where
  values path found leads := by
    obtain ⟨inside, format⟩ := Value.isUnmarked_of_follow? checked leads
    rw [Resolved.render, format]
    exact Value.unmarked_render inside
  items path items leads item member property found asked := by
    obtain ⟨node, reached, sequence⟩ := Option.bind_eq_some_iff.1 leads
    have inside := (Value.isUnmarked_of_follow? checked reached).1
    have each : item.isUnmarked options = true := by
      cases shape : node.value with
      | sequence all =>
          rw [shape] at inside sequence
          cases sequence
          rw [Value.isUnmarked, Bool.and_eq_true] at inside
          exact Value.isUnmarked_of_mem inside.2 member
      | _ =>
          rw [shape] at sequence
          cases sequence
    cases property with
    | none =>
        cases asked
        exact Value.unmarked_render each
    | some name =>
        obtain ⟨value, leads, rfl⟩ := Option.map_eq_some_iff.1 asked
        obtain ⟨below, format⟩ := Value.isUnmarked_of_follow? each leads
        rw [format]
        exact Value.unmarked_render below

end Stencil
