import Stencil.Proofs.Document.Agreement
import Stencil.Proofs.Placeholder.Whole

/-! Reports that are put together, and the report that a survey leads one to expect: the scalar
placeholders that the data has a value for are counted, and all others are listed where they
stand. -/

namespace Stencil

namespace Report

/-- What two fills did, one after the other. -/
def merge (first second : Report) : Report :=
  { scalarsFilled := first.scalarsFilled + second.scalarsFilled
    collectionsExpanded := first.collectionsExpanded + second.collectionsExpanded
    rowsEmitted := first.rowsEmitted + second.rowsEmitted
    unresolved := first.unresolved ++ second.unresolved }

theorem merge_empty (r : Report) : r.merge {} = r := by simp [merge]

theorem empty_merge (r : Report) : merge {} r = r := by simp [merge]

theorem merge_assoc (a b c : Report) : (a.merge b).merge c = a.merge (b.merge c) := by
  simp [merge, Nat.add_assoc]

end Report

/-- A placeholder as a report lists it. -/
def PlaceholderUse.entry (use : PlaceholderUse) : UnresolvedPlaceholder :=
  ⟨use.location, use.text⟩

namespace Source

/-- What filling scalar placeholders comes to: those with a value are counted, the others are
listed. -/
def outcomeOf (source : Source) (found : List Placeholder) : Outcome where
  filled := found.countP fun p => (source.get? p.path).isSome
  unresolved :=
    (found.filter fun p => (source.get? p.path).isNone).map fun p => String.ofList p.text

/-- Whether the data has what a placeholder asks for: a value for a scalar, a sequence for a
collection. -/
def answers (source : Source) (use : PlaceholderUse) : Bool :=
  use.path?.any fun path =>
    match use.kind with
    | .scalar => (source.get? path).isSome
    | .collection => (source.items? path).isSome

/-- What filling the scalar placeholders among those of a survey comes to. -/
def reportOn (source : Source) (uses : List PlaceholderUse) : Report :=
  let scalars := uses.filter fun use => use.kind = .scalar
  { scalarsFilled := scalars.countP source.answers
    unresolved := (scalars.filter fun use => !source.answers use).map PlaceholderUse.entry }

variable {source : Source} {p : Placeholder}

theorem outcomeOf_nil (source : Source) : source.outcomeOf [] = {} := rfl

theorem outcomeOf_cons_of_some {value : Resolved} (found : source.get? p.path = some value)
    (later : List Placeholder) :
    source.outcomeOf (p :: later) =
      { source.outcomeOf later with filled := (source.outcomeOf later).filled + 1 } := by
  simp [outcomeOf, found]

theorem outcomeOf_cons_of_none (absent : source.get? p.path = none) (later : List Placeholder) :
    source.outcomeOf (p :: later) =
      { source.outcomeOf later with
        unresolved := String.ofList p.text :: (source.outcomeOf later).unresolved } := by
  simp [outcomeOf, absent]

theorem reportOn_append (source : Source) (first second : List PlaceholderUse) :
    source.reportOn (first ++ second) = (source.reportOn first).merge (source.reportOn second) := by
  simp [reportOn, Report.merge]

end Source

theorem Occurrence.filter_mergeByStart {wanted : Occurrence → Bool} {first second : List Occurrence}
    (others : ∀ o ∈ first, wanted o = false) (all : ∀ o ∈ second, wanted o = true) :
    (mergeByStart first second).filter wanted = second := by
  fun_induction mergeByStart first second with
  | case1 second => exact List.filter_eq_self.2 all
  | case2 first => exact List.filter_eq_nil_iff.2 fun o member => by simp [others o member]
  | case3 a first b second low ih =>
      rw [List.filter_cons_of_neg (by simp [others a (List.mem_cons_self ..)])]
      exact ih (fun o member => others o (List.mem_cons_of_mem _ member)) all
  | case4 a first b second high ih =>
      rw [List.filter_cons_of_pos (all b (List.mem_cons_self ..))]
      exact congrArg _ (ih others fun o member => all o (List.mem_cons_of_mem _ member))

/-- The scalars in the survey of a text are its scalar placeholders, in the order of the text. -/
theorem filter_placeholdersIn (text : String) (location : Location) :
    (placeholdersIn text location).filter (fun use => use.kind = .scalar) =
      (placeholdersOf .scalar text).map fun p => ⟨.scalar, String.ofList p.text, location⟩ := by
  have others : ∀ o ∈ occurrences .collection text,
      decide (o.placeholder.kind = .scalar) = false := by
    intro o member
    rw [(wellFormed_of_mem_occurrences member).1]
    rfl
  have scalars : ∀ o ∈ occurrences .scalar text, o.placeholder.kind = .scalar :=
    fun o member => (wellFormed_of_mem_occurrences member).1
  have all : ∀ o ∈ occurrences .scalar text, decide (o.placeholder.kind = .scalar) = true :=
    fun o member => decide_eq_true (scalars o member)
  rw [placeholdersIn, List.filter_map, ← map_placeholder_occurrences, List.map_map]
  change ((Occurrence.mergeByStart _ _).filter fun o => decide (o.placeholder.kind = .scalar)).map _
    = _
  rw [Occurrence.filter_mergeByStart others all]
  apply List.map_congr_left
  intro o member
  rw [scalars o member]
  rfl

theorem Source.answers_scalar {source : Source} {p : Placeholder} (good : p.WellFormed)
    (kind : p.kind = .scalar) (location : Location) :
    source.answers ⟨.scalar, String.ofList p.text, location⟩ = (source.get? p.path).isSome := by
  simp only [answers, PlaceholderUse.path?, scalarPath?_of_kind good kind, Option.any_some]

/-- A fill of the scalars of a text reports what the survey of the text leads one to expect. -/
theorem Report.absorb_outcomeOf (report : Report) (source : Source) (text : String)
    (location : Location) :
    report.absorb location (source.outcomeOf (placeholdersOf .scalar text)) =
      report.merge (source.reportOn (placeholdersIn text location)) := by
  let use : Placeholder → PlaceholderUse := fun p => ⟨.scalar, String.ofList p.text, location⟩
  have same : ∀ p ∈ placeholdersOf .scalar text,
      (source.get? p.path).isSome = (source.answers ∘ use) p :=
    fun p member =>
      have found := wellFormed_of_mem_placeholdersOf member
      (Source.answers_scalar found.2 found.1 location).symm
  have filled : (placeholdersOf .scalar text).countP (fun p => (source.get? p.path).isSome) =
      (placeholdersOf .scalar text).countP (source.answers ∘ use) :=
    List.countP_congr fun p member => by rw [same p member]
  have listed : (placeholdersOf .scalar text).filter (fun p => (source.get? p.path).isNone) =
      (placeholdersOf .scalar text).filter ((fun use => !source.answers use) ∘ use) := by
    apply List.filter_congr
    intro p member
    rw [← Option.not_isSome, same p member]
    rfl
  have scalars : (placeholdersIn text location).filter (fun use => use.kind = .scalar) =
      (placeholdersOf .scalar text).map use := filter_placeholdersIn text location
  simp only [absorb, merge, Source.reportOn, Source.outcomeOf, scalars, filled, listed,
    List.countP_map, List.filter_map, List.map_map]
  rfl

end Stencil
