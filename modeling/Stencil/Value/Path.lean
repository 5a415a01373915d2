import Stencil.Value.Basic

/-! Paths into the data: segments between colons, each looked up in the node that the ones
before it lead to. -/

namespace Stencil

namespace Path

def segments (path : String) : List String := (path.toList.splitOn ':').map String.ofList

theorem segments_ne_nil (path : String) : segments path ≠ [] := by
  simp [segments, List.splitOn_ne_nil]

theorem segments_append (front back : String) :
    segments (front ++ ":" ++ back) = segments front ++ segments back := by
  have colon : ":".toList = [':'] := by decide
  simp only [segments, String.toList_append, colon, List.append_assoc, List.singleton_append,
    List.splitOn_append_cons_self, List.map_append]

/-- A key below a base, the key alone where the base is empty. -/
def join (base key : String) : String := if base = "" then key else base ++ ":" ++ key

end Path

/-- A node that a path leads to, with the last segment and the date format that the field it
was read from declares. -/
structure Resolved where
  key : String
  value : Value
  format : Option String

namespace Value

/-- One step down. Mappings are asked for a key, records for an entry first and for a field
second; nothing is found under an empty segment. -/
def step? (node : Value) (segment : String) : Option (Value × Option String) :=
  if segment = "" then none
  else match node with
    | .mapping entries => (atKey? segment entries).map (·, none)
    | .record _ schema field entry _ =>
        match entry segment with
        | some value => some (value, none)
        | none =>
            (field segment).map (·, (schema.field? segment).bind FieldDescriptor.format)
    | _ => none

/-- Take a step for each segment. The last step names the node and gives its date format. -/
def follow? (node : Value) : List String → Option Resolved
  | [] => none
  | [last] => (node.step? last).map fun (value, format) => ⟨last, value, format⟩
  | segment :: rest => (node.step? segment).bind fun (next, _) => next.follow? rest

/-- The node at a path below a root. -/
def resolve? (root : Value) (path : String) : Option Resolved := root.follow? (Path.segments path)

/-- The items of the sequence at a path. Sequences on the way are not entered. -/
def resolveItems? (root : Value) (path : String) : Option (List Value) :=
  (root.resolve? path).bind fun found => found.value.items?

/-- Segments lead to where the back part leads from the node that the front part leads to. -/
theorem follow?_append (root : Value) (front : List String) {back : List String}
    (nonempty : back ≠ []) (start : front ≠ []) :
    root.follow? (front ++ back) =
      (root.follow? front).bind fun found => found.value.follow? back := by
  induction front generalizing root with
  | nil => exact absurd rfl start
  | cons segment rest ih =>
      cases rest with
      | nil =>
          cases back with
          | nil => exact absurd rfl nonempty
          | cons head tail =>
              simp only [List.cons_append, List.nil_append, follow?]
              cases root.step? segment <;> rfl
      | cons next others =>
          simp only [List.cons_append, follow?] at ih ⊢
          cases found : root.step? segment with
          | none => rfl
          | some reached =>
              simp only [Option.bind_some]
              exact ih reached.1 (by simp)

/-- A path of two parts is resolved part by part. -/
theorem resolve?_append (root : Value) (front back : String) :
    root.resolve? (front ++ ":" ++ back) =
      (root.resolve? front).bind fun found => found.value.resolve? back := by
  simp only [resolve?, Path.segments_append]
  exact follow?_append root _ (Path.segments_ne_nil back) (Path.segments_ne_nil front)

/-- The keys that a node can be asked for, in order. -/
def childKeys : Value → List String
  | .mapping entries => entries.map (·.1)
  | .record _ schema _ _ entryKeys =>
      if entryKeys.isEmpty then schema.fields.map (·.name) else entryKeys
  | _ => []

end Value

end Stencil
