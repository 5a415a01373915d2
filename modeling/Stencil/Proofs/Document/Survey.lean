import Stencil.Fill.Document
import Stencil.Proofs.Paragraph.Scalars

/-! A fill of a document without collections goes through the places that a survey lists, in the
same order: paragraphs before tables, row by row, and in each cell paragraph by paragraph. -/

namespace Stencil

/-- The placeholders of items that are each told their index. -/
def usesOfEach {σ : Type} (uses : σ → Nat → List PlaceholderUse) (index : Nat) (items : List σ) :
    List PlaceholderUse :=
  (items.zipIdx index).flatMap fun place => uses place.1 place.2

namespace Attempt

variable {σ τ : Type} {source : Source}

/-- The operation comes to its end with this report. -/
def Reports (a : Attempt σ Report) (report : Report) : Prop := ∃ target, a = .done target report

theorem Reports.within {a : Attempt σ Report} {report : Report} (reports : a.Reports report)
    (put : σ → τ) : (a.within put).Reports report := by
  obtain ⟨target, rfl⟩ := reports
  exact ⟨put target, rfl⟩

/-- A step that is taken only if it is wanted reports on what it is taken for. -/
theorem Reports.optional {a : Attempt σ Report} {report : Report} {uses : List PlaceholderUse}
    {wanted : Bool} (reports : wanted = true → a.Reports (report.merge (source.reportOn uses)))
    (put : σ → τ) (whole : τ) :
    ∃ target, (if wanted then a.within put else .done whole report) =
      .done target (report.merge (source.reportOn (if wanted then uses else []))) ∧
        (target = whole ∨ ∃ inner, target = put inner) := by
  cases wanted with
  | true =>
      obtain ⟨inner, rfl⟩ := reports rfl
      exact ⟨put inner, rfl, .inr ⟨inner, rfl⟩⟩
  | false =>
      have nothing : report.merge (source.reportOn []) = report := report.merge_empty
      refine ⟨whole, ?_, .inl rfl⟩
      rw [if_neg Bool.false_ne_true, if_neg Bool.false_ne_true, nothing]

theorem eachFrom_reports (uses : σ → Nat → List PlaceholderUse)
    {step : Nat → σ → Report → Attempt σ Report} {items : List σ} {index : Nat}
    (each : ∀ i item, items[i]? = some item → ∀ report, (step (index + i) item report).Reports
      (report.merge (source.reportOn (uses item (index + i))))) (report : Report) :
    (eachFrom step index items report).Reports
      (report.merge (source.reportOn (usesOfEach uses index items))) := by
  induction items generalizing index report with
  | nil =>
      have nothing : report.merge (source.reportOn []) = report := report.merge_empty
      exact ⟨[], by rw [eachFrom, usesOfEach, List.zipIdx_nil, List.flatMap_nil, nothing]⟩
  | cons item rest ih =>
      have others : ∀ i other, rest[i]? = some other → ∀ report,
          (step (index + 1 + i) other report).Reports
            (report.merge (source.reportOn (uses other (index + 1 + i)))) := by
        intro i other at_
        rw [Nat.add_assoc, Nat.add_comm 1 i]
        exact each (i + 1) other (by rw [List.getElem?_cons_succ, at_])
      obtain ⟨filled, ran⟩ := each 0 item List.getElem?_cons_zero report
      obtain ⟨later, ends⟩ := ih others (report.merge (source.reportOn (uses item index)))
      rw [Nat.add_zero] at ran
      have first : usesOfEach uses index (item :: rest) =
          uses item index ++ usesOfEach uses (index + 1) rest := by
        rw [usesOfEach, List.zipIdx_cons, List.flatMap_cons]
        rfl
      refine ⟨filled :: later, ?_⟩
      rw [eachFrom, ran, Attempt.done]
      dsimp only
      rw [ends, first, Source.reportOn_append, ← Report.merge_assoc]
      rfl

/-- Filling items one after the other reports on the placeholders of each. -/
theorem each_reports (uses : σ → Nat → List PlaceholderUse)
    {step : Nat → σ → Report → Attempt σ Report} {items : List σ}
    (each : ∀ i item, items[i]? = some item → ∀ report, (step i item report).Reports
      (report.merge (source.reportOn (uses item i)))) (report : Report) :
    (Attempt.each step items report).Reports
      (report.merge (source.reportOn (usesOfEach uses 0 items))) :=
  eachFrom_reports uses (fun i item at_ => by rw [Nat.zero_add]; exact each i item at_) report

end Attempt

open Attempt

theorem TableCell.placeholders_eq (cell : TableCell) (location : Location) :
    cell.placeholders location =
      usesOfEach (fun p _ => placeholdersIn p.text location) 0 cell.paragraphs := by
  rw [TableCell.placeholders, usesOfEach,
    ← List.flatMap_map (f := Prod.fst) (g := fun p : Paragraph => placeholdersIn p.text location),
    List.zipIdx_map_fst]

def TableRow.placeholders (part : Part) (table row : Nat) (cells : TableRow) :
    List PlaceholderUse :=
  usesOfEach (fun cell column => cell.placeholders (.tableCell part table row column)) 0 cells.cells

theorem Table.placeholders_eq (t : Table) (part : Part) (index : Nat) :
    t.placeholders part index =
      usesOfEach (fun row r => row.placeholders part index r) 0 t.rows := rfl

theorem Body.placeholders_eq (body : Body) (part : Part) :
    body.placeholders part =
      usesOfEach (fun p i => placeholdersIn p.text (.paragraph part i)) 0 body.paragraphs ++
        usesOfEach (fun t i => t.placeholders part i) 0 body.tables := rfl

namespace FlowPass

variable {source : Source} {options : FillOptions}

theorem fillParagraph_reports (location : Location) (p : Paragraph) (report : Report) :
    (fillParagraph ⟨source, options, false⟩ location p report).Reports
      (report.merge (source.reportOn (placeholdersIn p.text location))) := by
  rw [← Report.absorb_outcomeOf]
  unfold fillParagraph
  by_cases none : hasPlaceholder .scalar p.text = false
  · rw [Paragraph.hasScalars, none, if_neg Bool.false_ne_true, placeholdersOf_eq_nil_iff.2 none,
      Source.outcomeOf_nil, Report.absorb_empty]
    exact ⟨p, rfl⟩
  · obtain ⟨filled, ran, -⟩ := Paragraph.fillScalars_done source options p
    rw [Bool.not_eq_false] at none
    rw [Paragraph.hasScalars, if_pos none, ran]
    exact ⟨filled, rfl⟩

theorem fillCell_reports (location : Location) (cell : TableCell) (report : Report) :
    (fillCell ⟨source, options, false⟩ location cell report).Reports
      (report.merge (source.reportOn (cell.placeholders location))) := by
  rw [cell.placeholders_eq]
  apply Reports.within
  exact each_reports _ (fun _ p _ => fillParagraph_reports location p) report

theorem fillRow_reports (part : Part) (table row : Nat) (cells : TableRow) (report : Report) :
    (fillRow ⟨source, options, false⟩ part table row cells report).Reports
      (report.merge (source.reportOn (cells.placeholders part table row))) := by
  apply Reports.within
  exact each_reports _ (fun column cell _ =>
    fillCell_reports (.tableCell part table row column) cell) report

theorem fillTableCells_reports (part : Part) (index : Nat) (t : Table) (report : Report) :
    (fillTableCells ⟨source, options, false⟩ part index t report).Reports
      (report.merge (source.reportOn (t.placeholders part index))) := by
  rw [t.placeholders_eq]
  apply Reports.within
  exact each_reports _ (fun r row _ => fillRow_reports part index r row) report

theorem fillTable_reports {part : Part} {expand : Bool} {index : Nat} {t : Table}
    (plain : expand = true → t.hasCollection = false) (report : Report) :
    (fillTable ⟨source, options, false⟩ part expand index t report).Reports
      (report.merge (source.reportOn (t.placeholders part index))) := by
  have unexpanded : (if expand then expandTable ⟨source, options, false⟩ part index t report
      else .done t report) = .done t report := by
    cases expand with
    | false => exact if_neg Bool.false_ne_true
    | true => rw [if_pos rfl, expandTable, plain rfl, if_neg Bool.false_ne_true]
  unfold fillTable
  rw [if_neg Bool.false_ne_true, unexpanded, andThen_done]
  exact fillTableCells_reports part index t report

theorem fillPart_reports {part : Part} {expand : Bool} {body : Body}
    (plain : expand = true → ∀ t ∈ body.tables, t.hasCollection = false) (report : Report) :
    (fillPart ⟨source, options, false⟩ part expand body report).Reports
      (report.merge (source.reportOn (body.placeholders part))) := by
  rw [body.placeholders_eq, Source.reportOn_append, ← Report.merge_assoc]
  unfold fillPart
  dsimp only
  obtain ⟨paragraphs, ran⟩ : (Attempt.each (fun i p report =>
      if false = true then .stop p .cancelled
      else fillParagraph ⟨source, options, false⟩ (.paragraph part i) p report)
        body.paragraphs report).Reports _ :=
    each_reports _ (fun i p _ => fillParagraph_reports (.paragraph part i) p) report
  rw [ran]
  apply Reports.within
  exact each_reports _ (fun i t at_ =>
    fillTable_reports fun wanted => plain wanted t (List.mem_of_getElem? at_)) _

theorem fillParts_reports {part : Nat → Part} {bodies : List Body}
    (plain : options.flow.expandPartTables = true → ∀ body ∈ bodies, ∀ t ∈ body.tables,
      t.hasCollection = false) (report : Report) :
    (fillParts ⟨source, options, false⟩ part bodies report).Reports (report.merge
      (source.reportOn (usesOfEach (fun body i => body.placeholders (part i)) 0 bodies))) :=
  each_reports _ (fun _ body at_ =>
    fillPart_reports fun wanted => plain wanted body (List.mem_of_getElem? at_)) report

end FlowPass

/-! ### The parts that are filled -/

/-- The part of a document that a place is in. -/
def Location.part? : Location → Option Part
  | cell .. => none
  | paragraph part _ => some part
  | table part _ => some part
  | tableCell part .. => some part

/-- The body is always filled, the other parts are as the options say. -/
def Part.isFilled (flow : FlowOptions) : Part → Bool
  | body => true
  | header _ => flow.headers
  | footer _ => flow.footers

/-- The placeholders in the parts of a document that are filled. -/
def Document.filledPlaceholders (flow : FlowOptions) (d : Document) : List PlaceholderUse :=
  d.placeholders.filter fun use => use.location.part?.all (Part.isFilled flow)

/-- The tables of the parts that have their tables expanded. -/
def Document.expandedTables (flow : FlowOptions) (d : Document) : List Table :=
  let parts := (if flow.headers then d.headers else []) ++ if flow.footers then d.footers else []
  d.body.tables ++ if flow.expandPartTables then parts.flatMap Body.tables else []

theorem location_of_mem_placeholdersIn {use : PlaceholderUse} {text : String} {location : Location}
    (member : use ∈ placeholdersIn text location) : use.location = location := by
  obtain ⟨o, -, rfl⟩ := List.mem_map.1 member
  rfl

theorem exists_of_mem_usesOfEach {σ : Type} {uses : σ → Nat → List PlaceholderUse} {index : Nat}
    {items : List σ} {use : PlaceholderUse} (member : use ∈ usesOfEach uses index items) :
    ∃ item i, use ∈ uses item i := by
  obtain ⟨place, -, inside⟩ := List.mem_flatMap.1 member
  exact ⟨place.1, place.2, inside⟩

theorem Body.part_of_mem_placeholders {body : Body} {part : Part} {use : PlaceholderUse}
    (member : use ∈ body.placeholders part) : use.location.part? = some part := by
  rw [body.placeholders_eq, List.mem_append] at member
  rcases member with inText | inTable
  · obtain ⟨p, i, inside⟩ := exists_of_mem_usesOfEach inText
    rw [location_of_mem_placeholdersIn inside]
    rfl
  · obtain ⟨t, i, inside⟩ := exists_of_mem_usesOfEach inTable
    rw [t.placeholders_eq] at inside
    obtain ⟨row, r, inside⟩ := exists_of_mem_usesOfEach inside
    obtain ⟨cell, c, inside⟩ := exists_of_mem_usesOfEach inside
    obtain ⟨p, -, inside⟩ := List.mem_flatMap.1 inside
    rw [location_of_mem_placeholdersIn inside]
    rfl

theorem Document.placeholders_eq (d : Document) :
    d.placeholders = d.body.placeholders .body
      ++ usesOfEach (fun body i => body.placeholders (.header i)) 0 d.headers
      ++ usesOfEach (fun body i => body.placeholders (.footer i)) 0 d.footers := rfl

/-- Whole parts are filled or passed over. -/
theorem Document.filledPlaceholders_eq (flow : FlowOptions) (d : Document) :
    d.filledPlaceholders flow = d.body.placeholders .body
      ++ (if flow.headers then usesOfEach (fun body i => body.placeholders (.header i)) 0 d.headers
        else [])
      ++ (if flow.footers then usesOfEach (fun body i => body.placeholders (.footer i)) 0 d.footers
        else []) := by
  have kept : ∀ (uses : List PlaceholderUse) (wanted : Bool),
      (∀ use ∈ uses, use.location.part?.all (Part.isFilled flow) = wanted) →
      uses.filter (fun use => use.location.part?.all (Part.isFilled flow)) =
        if wanted then uses else [] := by
    intro uses wanted same
    cases wanted with
    | true => exact List.filter_eq_self.2 same
    | false => exact List.filter_eq_nil_iff.2 fun use member => by simp [same use member]
  have parts : ∀ (part : Nat → Part) (bodies : List Body) (wanted : Bool),
      (∀ i, (part i).isFilled flow = wanted) →
      ∀ use ∈ usesOfEach (fun body i => body.placeholders (part i)) 0 bodies,
        use.location.part?.all (Part.isFilled flow) = wanted := by
    intro part bodies wanted same use member
    obtain ⟨body, i, inside⟩ := exists_of_mem_usesOfEach member
    rw [Body.part_of_mem_placeholders inside, Option.all_some, same]
  rw [filledPlaceholders, placeholders_eq, List.filter_append, List.filter_append,
    kept _ true fun use member => by rw [Body.part_of_mem_placeholders member]; rfl,
    kept _ flow.headers (parts .header d.headers flow.headers fun _ => rfl),
    kept _ flow.footers (parts .footer d.footers flow.footers fun _ => rfl)]
  rfl

/-- A fill of a document reports on the placeholders of the parts that it fills. -/
theorem Document.fill_reports {source : Source} {options : FillOptions} {d : Document}
    (plain : ∀ t ∈ d.expandedTables options.flow, t.hasCollection = false) :
    (d.fill source options false).Reports
      (source.reportOn (d.filledPlaceholders options.flow)) := by
  have inBody : ∀ t ∈ d.body.tables, t.hasCollection = false :=
    fun t member => plain t (List.mem_append_left _ member)
  have inHeaders : options.flow.headers = true → options.flow.expandPartTables = true →
      ∀ body ∈ d.headers, ∀ t ∈ body.tables, t.hasCollection = false := by
    intro filled expanded body member t inside
    apply plain t
    apply List.mem_append_right
    rw [if_pos expanded, if_pos filled]
    exact List.mem_flatMap.2 ⟨body, List.mem_append_left _ member, inside⟩
  have inFooters : options.flow.footers = true → options.flow.expandPartTables = true →
      ∀ body ∈ d.footers, ∀ t ∈ body.tables, t.hasCollection = false := by
    intro filled expanded body member t inside
    apply plain t
    apply List.mem_append_right
    rw [if_pos expanded, if_pos filled]
    exact List.mem_flatMap.2 ⟨body, List.mem_append_right _ member, inside⟩
  rw [filledPlaceholders_eq, Source.reportOn_append, Source.reportOn_append]
  unfold fill
  dsimp only
  obtain ⟨body, ran⟩ : (FlowPass.fillPart ⟨source, options, false⟩ .body true d.body {}).Reports _ :=
    FlowPass.fillPart_reports (fun _ => inBody) {}
  rw [ran, Report.empty_merge, within_done, andThen_done]
  obtain ⟨middle, ran, kept⟩ := Reports.optional
    (fun filled => @FlowPass.fillParts_reports source options .header d.headers (inHeaders filled)
      (source.reportOn (d.body.placeholders .body)))
    (fun headers => { d with body, headers }) { d with body }
  have kept : middle.footers = d.footers := by
    rcases kept with rfl | ⟨headers, rfl⟩ <;> rfl
  dsimp only at ran ⊢
  rw [ran, andThen_done, kept]
  obtain ⟨last, ends, -⟩ := Reports.optional
    (fun filled => @FlowPass.fillParts_reports source options .footer d.footers (inFooters filled)
      ((source.reportOn (d.body.placeholders .body)).merge (source.reportOn
        (if options.flow.headers then
          usesOfEach (fun body i => body.placeholders (.header i)) 0 d.headers else []))))
    (fun footers => { middle with footers }) middle
  exact ⟨last, ends⟩

end Stencil
