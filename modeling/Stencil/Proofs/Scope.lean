import Stencil.Fill.Template
import Stencil.Proofs.Document.Interference

/-! A fill reads the data through lookups only, so a path that comes before every lookup comes to
the same as data that begins where the path leads. -/

namespace Stencil

/-- The node at a path, null where the path leads nowhere. -/
def Value.nodeAt (data : Value) (scope : String) : Value :=
  ((data.resolve? scope).map Resolved.value).getD .null

theorem Value.resolve?_null (path : String) : Value.null.resolve? path = none := by
  have nowhere : ∀ segments, Value.null.follow? segments = none := by
    intro segments
    have blocked : ∀ segment, Value.null.step? segment = none := fun segment => ite_self none
    cases segments with
    | nil => rfl
    | cons segment rest =>
        cases rest with
        | nil => rw [follow?, blocked, Option.map_none]
        | cons next others => simp only [follow?, blocked, Option.bind_none]
  exact nowhere (Path.segments path)

/-- A lookup below a path goes on from the node at the path. -/
theorem Source.get?_below (data : Value) {scope : String} (named : scope ≠ "") :
    ((ofValue data).below scope).get? = (ofValue (data.nodeAt scope)).get? := by
  funext path
  have joined : ((ofValue data).below scope).get? path =
      data.resolve? (scope ++ ":" ++ path) := by
    simp only [get?, below, ofValue, qualify, if_neg named, Path.join]
  rw [joined, Value.resolve?_append, Value.nodeAt]
  cases data.resolve? scope with
  | none => exact (Value.resolve?_null path).symm
  | some found => rfl

variable {first second : Source} {options : FillOptions}

theorem Source.items?_same (same : first.get? = second.get?) : first.items? = second.items? :=
  funext fun path => congrArg (fun found : Option Resolved => found.bind fun found =>
    found.value.items?) (congrFun same path)

/-! ### Workbooks -/

theorem replaceScalars_same (same : first.get? = second.get?) (found : List Piece) :
    replaceScalars first options found = replaceScalars second options found := by
  induction found with
  | nil => rfl
  | cons piece rest ih =>
      cases piece with
      | plain c => rw [replaceScalars, replaceScalars, ih]
      | placeholder p => rw [replaceScalars, replaceScalars, ih, same]

namespace Sheet

theorem visitCollections_same (same : first.get? = second.get?) (cancelled : Bool)
    (c : Counting) :
    visitCollections first options cancelled c = visitCollections second options cancelled c := by
  funext s row column
  simp only [visitCollections, expandAt, Source.items?_same same]

theorem visitScalars_same (same : first.get? = second.get?) :
    visitScalars first options = visitScalars second options := by
  funext s row column
  simp only [visitScalars, fillScalarsAt, same, replaceScalars_same same]

theorem fill_same (same : first.get? = second.get?) (cancelled : Bool) (bound : Nat) (s : Sheet)
    (report : Report) (c : Counting) :
    s.fill first options cancelled bound report c =
      s.fill second options cancelled bound report c := by
  rw [fill, fill, visitCollections_same same, visitScalars_same same]

end Sheet

theorem Workbook.fill_same (same : first.get? = second.get?) (cancelled : Bool) (bound : Nat)
    (w : Workbook) (c : Counting) :
    w.fill first options cancelled bound c = w.fill second options cancelled bound c := by
  have sheets : ∀ sheets report, fillSheets first options cancelled bound sheets report c =
      fillSheets second options cancelled bound sheets report c := by
    intro sheets
    induction sheets with
    | nil => exact fun report => rfl
    | cons s rest ih =>
        intro report
        simp only [fillSheets, Sheet.fill_same same, ih]
  rw [fill, fill, sheets]

/-! ### Documents -/

theorem Source.agreeOn_of_same (same : first.get? = second.get?) (kind : PlaceholderKind)
    (uses : List PlaceholderUse) : AgreeOn kind first second uses :=
  fun _ _ _ path _ => congrArg _ (congrFun same path)

theorem Document.fill_same (same : first.get? = second.get?) (d : Document) :
    d.fill first options false = d.fill second options false := by
  have agree := Source.agreeOn_of_same same
  have part : FlowPass.fillPart ⟨first, options, false⟩ =
      FlowPass.fillPart ⟨second, options, false⟩ := by
    funext part expand body report
    exact FlowPass.fillPart_congr (agree _ _) (agree _ _) report
  have parts : FlowPass.fillParts ⟨first, options, false⟩ =
      FlowPass.fillParts ⟨second, options, false⟩ := by
    funext place bodies report
    exact FlowPass.fillParts_congr (fun _ _ _ => agree _ _) (fun _ _ _ => agree _ _) report
  simp only [fill, part, parts]

/-! ### Templates -/

/-- Sources with the same lookups fill a template alike. -/
theorem Template.fillWith_same (same : first.get? = second.get?) (bound : Nat) (t : Template) :
    t.fillWith first options false bound = t.fillWith second options false bound := by
  cases t with
  | workbook w => rw [fillWith, fillWith, Workbook.fill_same same]
  | document d => rw [fillWith, fillWith, Document.fill_same same]

/-- Filling a template below a path is filling it with the node at the path, or with null where the
path leads nowhere: the filled template and the report are the same, or neither fill ends. -/
theorem Template.fill_below (options : FillOptions) (data : Value) (scope : String)
    (named : scope ≠ "") (bound : Nat) (t : Template) :
    t.fill { options, scope := some scope } bound data =
      t.fill { options } bound (data.nodeAt scope) :=
  fillWith_same (Source.get?_below data named) bound t

/-- A guest whose home is a mapping of its own. -/
def guest : Value := .mapping [("Name", .text "Ann"), ("Home", .mapping [("Town", .text "Ulm")])]

/-- A template that names a town, filled below the home of the guest. -/
theorem Template.town_below_home :
    "Home" ≠ "" ∧
    (document (.ofCell "{Town}")).fill { options := {}, scope := some "Home" } 0 guest =
      (document (.ofCell "{Town}")).fill { options := {} } 0 (guest.nodeAt "Home") ∧
    (document (.ofCell "{Town}")).fill { options := {} } 0 (guest.nodeAt "Home") =
      some (.done (document (.ofCell "Ulm")) { scalarsFilled := 1 }) := by
  have named : "Home" ≠ "" := by decide
  exact ⟨named, fill_below {} guest "Home" named 0 _, by cbv⟩

end Stencil
