import Stencil.Proofs.Value.Segments
import Stencil.Proofs.Value.Sections

/-! The children of a mapping, one for each entry. A child is not taken from its entry but looked up
again with the key of the entry for a path, so that it is its entry exactly if the key is one
segment of a path. -/

namespace Stencil

/-- Under the key of an entry the entry is found, if no key comes twice. -/
theorem atKey?_of_getElem? {α : Type} {entries : List (String × α)}
    (distinct : (entries.map Prod.fst).Nodup) {i : Nat} {key : String} {value : α}
    (there : entries[i]? = some (key, value)) : atKey? key entries = some value := by
  induction entries generalizing i with
  | nil => cases there
  | cons head rest ih =>
      obtain ⟨k, v⟩ := head
      obtain ⟨absent, others⟩ := List.nodup_cons.1 distinct
      cases i with
      | zero =>
          cases there
          exact if_pos rfl
      | succ i =>
          rw [List.getElem?_cons_succ] at there
          have apart : k ≠ key := by
            rintro rfl
            exact absent (List.mem_map.2 ⟨_, List.mem_of_getElem? there, rfl⟩)
          rw [atKey?, if_neg apart]
          exact ih others there

/-- The node that a source looks things up in. -/
def Source.node? (source : Source) : Option Value :=
  match source.scope with
  | none => some source.root
  | some scope => (source.root.resolve? scope).map Resolved.value

/-- The children of a source are those of its node. -/
theorem Source.children_eq {source : Source} {node : Value} (there : source.node? = some node) :
    source.children = node.sectionsUnder "" := by
  obtain ⟨root, scope⟩ := source
  cases scope with
  | none =>
      cases there
      rfl
  | some scope =>
      obtain ⟨found, reached, rfl⟩ := Option.map_eq_some_iff.1 there
      change (root.sectionAt scope "").children = _
      rw [Value.sectionAt, reached]
      rfl

theorem Section.children_eq {s : Section} {node : Value} (there : s.value = some node) :
    s.children = node.sectionsUnder s.path := by
  rw [children, there]

/-- The section of a mapping under a key of it is the entry exactly if the key is one segment. -/
theorem Value.sectionAt_entry_iff {entries : List (String × Value)}
    (distinct : (entries.map Prod.fst).Nodup) {i : Nat} {key : String} {value : Value}
    (there : entries[i]? = some (key, value)) (path : String) :
    ((mapping entries).sectionAt key path).key = key ∧
        ((mapping entries).sectionAt key path).value = some value ↔ Path.IsSegment key := by
  constructor
  · rintro ⟨named, held⟩
    rw [sectionAt] at named held
    cases reached : (mapping entries).resolve? key with
    | none =>
        rw [reached] at held
        cases held
    | some found =>
        rw [reached] at named
        exact named ▸ isSegment_of_resolve? reached
  · intro whole
    rw [sectionAt, resolve?_mapping whole, atKey?_of_getElem? distinct there]
    exact ⟨rfl, rfl⟩

/-- Sections that stand for the entries of a mapping, in order. Each is what is found in the mapping
with the key for a path, nothing if that leads nowhere, and it is the entry itself exactly if the
key is one segment. -/
structure Enumerates (sections : List Section) (base : String) (entries : List (String × Value)) :
    Prop where
  count : sections.length = entries.length
  each : ∀ (i : Nat) (key : String) (value : Value), entries[i]? = some (key, value) →
    ∃ child, sections[i]? = some child ∧
      child = (Value.mapping entries).sectionAt key (Path.join base key) ∧
      (child.key = key ∧ child.value = some value ↔ Path.IsSegment key)

theorem Value.enumerates_sectionsUnder {entries : List (String × Value)}
    (distinct : (entries.map Prod.fst).Nodup) (base : String) :
    Enumerates ((mapping entries).sectionsUnder base) base entries where
  count := by rw [sectionsUnder, childKeys, List.length_map, List.length_map]
  each i key value there := by
    refine ⟨_, ?_, rfl, sectionAt_entry_iff distinct there _⟩
    rw [sectionsUnder, childKeys, List.getElem?_map, List.getElem?_map, there]
    rfl

/-- The children of a source that looks things up in a mapping, and those of a section that holds
one, are as many as its entries and stand for them in order. An entry with a key that is one segment
is its child; any other key is looked up as the path that it reads as. -/
theorem children_enumerate {entries : List (String × Value)}
    (distinct : (entries.map Prod.fst).Nodup) :
    (∀ source : Source, source.node? = some (.mapping entries) →
      Enumerates source.children "" entries) ∧
    ∀ s : Section, s.value = some (.mapping entries) → Enumerates s.children s.path entries := by
  refine ⟨fun source there => ?_, fun s there => ?_⟩
  · rw [Source.children_eq there]
    exact Value.enumerates_sectionsUnder distinct ""
  · rw [Section.children_eq there]
    exact Value.enumerates_sectionsUnder distinct s.path

/-- The oral grade stands once below the name and once under a key with a colon in it, and there is
a grade without a name. -/
def grades : List (String × Value) :=
  [("Ann", .mapping [("Oral", .int 4)]), ("Ann:Oral", .int 2), ("", .int 3)]

/-- The grades of one course. -/
def gradeSource : Source := (Source.ofValue (.mapping [("Course", .mapping grades)])).below "Course"

theorem grades_enumerated :
    (grades.map Prod.fst).Nodup ∧
      gradeSource.node? = some (.mapping grades) ∧ Enumerates gradeSource.children "" grades ∧
      (∃ child, gradeSource.children[0]? = some child ∧
        child.key = "Ann" ∧ child.value = some (.mapping [("Oral", .int 4)])) ∧
      Enumerates ({ path := "Course", value := some (.mapping grades) } : Section).children
        "Course" grades := by
  have distinct : (grades.map Prod.fst).Nodup := by decide
  have node : gradeSource.node? = some (.mapping grades) := by cbv
  obtain ⟨ofSource, ofSection⟩ := children_enumerate distinct
  obtain ⟨child, first, -, entry⟩ := (ofSource gradeSource node).each 0 _ _ rfl
  refine ⟨distinct, node, ofSource gradeSource node, ⟨child, first, entry.2 ?_⟩, ?_⟩
  · decide
  · exact ofSection { path := "Course", value := some (.mapping grades) } rfl

/-- No child is the entry under the key with a colon: the grade below the name is found in its
place. For the grade without a name nothing is found. -/
theorem grades_astray :
    (grades.map Prod.fst).Nodup ∧ gradeSource.node? = some (.mapping grades) ∧
      grades[1]? = some ("Ann:Oral", .int 2) ∧
      gradeSource.children = [⟨"Ann", "Ann", some (.mapping [("Oral", .int 4)]), none⟩,
        ⟨"Oral", "Ann:Oral", some (.int 4), none⟩, {}] ∧
      ¬∃ child, gradeSource.children[1]? = some child ∧
        child.key = "Ann:Oral" ∧ child.value = some (.int 2) := by
  have children : gradeSource.children =
      [⟨"Ann", "Ann", some (.mapping [("Oral", .int 4)]), none⟩,
        ⟨"Oral", "Ann:Oral", some (.int 4), none⟩, {}] := by cbv
  refine ⟨by decide, by cbv, rfl, children, ?_⟩
  rintro ⟨child, second, named, -⟩
  rw [children] at second
  cases second
  exact absurd named (by decide)

end Stencil
