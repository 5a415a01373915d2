import Stencil.Fill.Survey
import Stencil.Proofs.Placeholder.Whole

/-! The survey of a text that is one placeholder, and that of a text without marks. -/

namespace Stencil

open Placeholder

variable {text : String} {p : Placeholder} {use : CollectionUse}

theorem occurrences_eq_nil_iff {kind : PlaceholderKind} :
    occurrences kind text = [] ↔ hasPlaceholder kind text = false := by
  rw [hasPlaceholder_eq_any, Bool.not_eq_false', List.isEmpty_iff]

theorem Unmarked.placeholdersIn (unmarked : Unmarked text) (location : Location) :
    placeholdersIn text location = [] := by
  rw [Stencil.placeholdersIn, occurrences_eq_nil_iff.2 (unmarked.hasPlaceholder .collection),
    occurrences_eq_nil_iff.2 (unmarked.hasPlaceholder .scalar), Occurrence.mergeByStart,
    List.map_nil]

theorem placeholdersIn_text (good : p.WellFormed) (location : Location) :
    placeholdersIn (String.ofList p.text) location =
      [⟨p.kind, String.ofList p.text, location⟩] := by
  have own := occurrences_text good
  have other : ∀ kind, kind ≠ p.kind → occurrences kind (String.ofList p.text) = [] := by
    intro kind apart
    rw [occurrences_eq_nil_iff, hasPlaceholder_text good, beq_eq_false_iff_ne.2 apart]
  cases kind : p.kind with
  | scalar =>
      rw [kind] at own
      rw [placeholdersIn, other .collection (by rw [kind]; decide), own, Occurrence.mergeByStart]
      simp only [List.map_cons, kind, List.map_nil]
  | collection =>
      rw [kind] at own
      rw [placeholdersIn, other .scalar (by rw [kind]; decide), own, Occurrence.mergeByStart]
      · simp only [List.map_cons, kind, List.map_nil]
      · exact fun nothing => by cases nothing

theorem Unmarked.firstCollection? (unmarked : Unmarked text) : firstCollection? text = none := by
  have absent := unmarked.hasPlaceholder .collection
  rwa [hasPlaceholder_collection, Option.isSome_eq_false_iff, Option.isNone_iff_eq_none] at absent

theorem firstCollection?_of_scalar (good : p.WellFormed) (kind : p.kind = .scalar) :
    firstCollection? (String.ofList p.text) = none := by
  have absent := hasPlaceholder_text good .collection
  rw [kind] at absent
  rwa [hasPlaceholder_collection, show (PlaceholderKind.collection == .scalar) = false from rfl,
    Option.isSome_eq_false_iff, Option.isNone_iff_eq_none] at absent

/-- A placeholder that begins a collection is a collection placeholder. -/
theorem kind_of_firstCollection? (good : p.WellFormed)
    (first : firstCollection? (String.ofList p.text) = some use) : p.kind = .collection := by
  cases kind : p.kind with
  | collection => rfl
  | scalar => cases (firstCollection?_of_scalar good kind).symm.trans first

/-- What is reported for a placeholder is the text of it. -/
theorem sourceText_of_firstCollection? (good : p.WellFormed)
    (first : firstCollection? (String.ofList p.text) = some use) :
    use.sourceText = String.ofList p.text := by
  have kind := kind_of_firstCollection? good first
  cases p with
  | scalar path => cases kind
  | collection path property =>
      rw [firstCollection?_text good] at first
      cases first
      exact sourceText_of_text ..

end Stencil
