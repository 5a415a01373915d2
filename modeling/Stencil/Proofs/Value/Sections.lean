import Stencil.Value.Source

/-! Lookups go on from one another: where a path leads from the root, its back part leads from the
node at its front part. Sections carry the path that they were asked for, so a section of a section
is that at the joined path, and the children are found again under the paths that they carry. -/

namespace Stencil

theorem Path.join_append (base front back : String) :
    join base (front ++ ":" ++ back) = join base front ++ ":" ++ back := by
  unfold join
  split
  · rfl
  · simp only [String.append_assoc]

namespace Value

theorem resolve?_empty (root : Value) : root.resolve? "" = none := by
  have blank : Path.segments "" = [""] := by decide
  have blocked : root.step? "" = none := if_pos rfl
  rw [resolve?, blank, follow?, blocked, Option.map_none]

/-- A path of two parts leads nowhere exactly if one of the two steps does. -/
theorem resolve?_append_eq_none_iff (root : Value) (front back : String) :
    root.resolve? (front ++ ":" ++ back) = none ↔
      root.resolve? front = none ∨
        ∃ found, root.resolve? front = some found ∧ found.value.resolve? back = none := by
  rw [resolve?_append]
  cases root.resolve? front <;> simp

theorem ne_empty_of_resolve? {root : Value} {path : String} {found : Resolved}
    (reached : root.resolve? path = some found) : path ≠ "" := by
  rintro rfl
  rw [resolve?_empty] at reached
  cases reached

theorem sectionAt_of_none {root : Value} {relative : String}
    (absent : root.resolve? relative = none) (path : String) : root.sectionAt relative path = {} := by
  rw [sectionAt, absent]

/-- Below a node the sections are those below the path to it. -/
theorem sectionAt_of_some {root : Value} {front : String} {found : Resolved}
    (reached : root.resolve? front = some found) (back path : String) :
    root.sectionAt (front ++ ":" ++ back) path = found.value.sectionAt back path := by
  rw [sectionAt, sectionAt, resolve?_append, reached, Option.bind_some]

end Value

namespace Source

theorem qualify_append (source : Source) (front back : String) :
    source.qualify (front ++ ":" ++ back) = source.qualify front ++ ":" ++ back := by
  unfold qualify
  cases source.scope with
  | none => rfl
  | some scope => exact Path.join_append scope front back

/-- Nothing is found under the empty path, with a scope or without. -/
theorem get?_empty (source : Source) : source.get? "" = none := by
  unfold get? qualify
  cases source.scope with
  | none => exact source.root.resolve?_empty
  | some scope =>
      by_cases named : scope = ""
      · rw [named]
        exact source.root.resolve?_empty
      · show source.root.resolve? (Path.join scope "") = none
        rw [Path.join, if_neg named, Value.resolve?_append_eq_none_iff]
        cases reached : source.root.resolve? scope with
        | none => exact .inl rfl
        | some found => exact .inr ⟨found, rfl, found.value.resolve?_empty⟩

/-- A section of a section is the section at the joined path. -/
theorem sectionOf_sectionOf (source : Source) (front back : String) :
    (source.sectionOf front).sectionOf back = source.sectionOf (front ++ ":" ++ back) := by
  unfold sectionOf
  rw [qualify_append]
  cases reached : source.root.resolve? (source.qualify front) with
  | none =>
      have nowhere := (source.root.resolve?_append_eq_none_iff _ back).2 (.inl reached)
      rw [Value.sectionAt_of_none reached, Value.sectionAt_of_none nowhere]
      rfl
  | some found =>
      have named : front ≠ "" := by
        rintro rfl
        cases reached.symm.trans source.get?_empty
      rw [Value.sectionAt_of_some reached, Value.sectionAt, reached]
      show found.value.sectionAt back (Path.join front back) = _
      rw [Path.join, if_neg named]

/-- A section is found again under the path that it carries. -/
theorem sectionOf_path (source : Source) (path : String) :
    source.sectionOf (source.sectionOf path).path = source.sectionOf path := by
  cases reached : source.root.resolve? (source.qualify path) with
  | none =>
      have empty : source.sectionOf path = {} := Value.sectionAt_of_none reached path
      rw [empty]
      exact Value.sectionAt_of_none source.get?_empty ""
  | some found =>
      have carried : (source.sectionOf path).path = path := by
        rw [sectionOf, Value.sectionAt, reached]
      rw [carried]

end Source

/-! ### Children -/

/-- The children of a section are sections of it. -/
theorem Section.exists_of_mem_children {s child : Section} (member : child ∈ s.children) :
    ∃ key, child = s.sectionOf key := by
  obtain ⟨name, path, value, format⟩ := s
  cases value with
  | none => cases member
  | some node =>
      obtain ⟨key, -, rfl⟩ := List.mem_map.1 member
      exact ⟨key, rfl⟩

/-- The children of a source are sections of it, with a scope or without. -/
theorem Source.exists_of_mem_children {source : Source} {child : Section}
    (member : child ∈ source.children) : ∃ key, child = source.sectionOf key := by
  obtain ⟨root, scope⟩ := source
  cases scope with
  | none =>
      obtain ⟨key, -, rfl⟩ := List.mem_map.1 member
      exact ⟨key, rfl⟩
  | some scope =>
      change child ∈ (root.sectionAt scope "").children at member
      cases reached : root.resolve? scope with
      | none =>
          rw [Value.sectionAt_of_none reached] at member
          cases member
      | some found =>
          rw [Value.sectionAt, reached] at member
          obtain ⟨key, rfl⟩ := Section.exists_of_mem_children member
          refine ⟨key, ?_⟩
          have below : Path.join scope key = scope ++ ":" ++ key :=
            if_neg (Value.ne_empty_of_resolve? reached)
          show found.value.sectionAt key key = root.sectionAt (Path.join scope key) key
          rw [below, Value.sectionAt_of_some reached]

/-- Resolving a path of two parts is resolving its front part and then its back part from there,
with the same key, value and format, and it fails exactly if one of the two does. A section of a
section is that at the joined path, and children of a source or of a section of it are the sections
under the paths that they carry. -/
theorem lookups_compose (root : Value) (source : Source) (front back : String) :
    root.resolve? (front ++ ":" ++ back) =
        ((root.resolve? front).bind fun found => found.value.resolve? back) ∧
      (root.resolve? (front ++ ":" ++ back) = none ↔
        root.resolve? front = none ∨
          ∃ found, root.resolve? front = some found ∧ found.value.resolve? back = none) ∧
      (source.sectionOf front).sectionOf back = source.sectionOf (front ++ ":" ++ back) ∧
      (∀ child ∈ source.children, source.sectionOf child.path = child) ∧
      ∀ child ∈ (source.sectionOf front).children, source.sectionOf child.path = child := by
  refine ⟨root.resolve?_append front back, root.resolve?_append_eq_none_iff front back,
    source.sectionOf_sectionOf front back, ?_, ?_⟩
  · intro child member
    obtain ⟨key, rfl⟩ := Source.exists_of_mem_children member
    exact source.sectionOf_path key
  · intro child member
    obtain ⟨key, rfl⟩ := Section.exists_of_mem_children member
    rw [source.sectionOf_sectionOf]
    exact source.sectionOf_path _

/-- A course, a record with an entry of its own, which is a mapping. -/
def course : Value :=
  .record 0 ⟨"Course", []⟩ (fun _ => none)
    (fun key => if key = "Room" then some (.mapping [("Floor", .int 2), ("a:b", .null)]) else none)
    ["Room", ""]

/-- The courses, looked up below the path to one of them. -/
def courseSource : Source := (Source.ofValue (.mapping [("Course", course)])).below "Course"

/-- The floor of the room of a course. -/
def floorSection : Section := ⟨"Floor", "Room:Floor", some (.int 2), none⟩

/-- The room is a child of the course and its floor a child of the room, and both are found again.
Nothing is found under the key that is empty or under the one that reads as two segments. -/
theorem course_lookups :
    courseSource.children = [courseSource.sectionOf "Room", {}] ∧
      courseSource.sectionOf (courseSource.sectionOf "Room").path =
        courseSource.sectionOf "Room" ∧
      (courseSource.sectionOf "Room").children = [floorSection, {}] ∧
      courseSource.sectionOf floorSection.path = floorSection ∧
      courseSource.sectionOf "Room:Floor" = floorSection := by
  have children : courseSource.children = [courseSource.sectionOf "Room", {}] := by cbv
  have inner : (courseSource.sectionOf "Room").children = [floorSection, {}] := by cbv
  obtain ⟨-, -, -, found, foundInner⟩ := lookups_compose course courseSource "Room" "Floor"
  have room := found (courseSource.sectionOf "Room") (by rw [children]; exact .head _)
  have floor := foundInner floorSection (by rw [inner]; exact .head _)
  exact ⟨children, room, inner, floor, floor⟩

end Stencil
