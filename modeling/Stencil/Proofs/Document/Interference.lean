import Mathlib
import Stencil.Fill.Document
import Stencil.Proofs.Document.Expansion

/-! What filling a document reads from the data: the collections that its tables name, and the
scalars that stand in it once the tables are expanded. The latter may have come with the items. -/

namespace Stencil

/-- A table as it stands when its scalars are filled. -/
def Table.expanded (source : Source) (options : FillOptions) (t : Table) : Table :=
  if t.hasCollection then (t.expand source options false).target else t

def Body.expanded (source : Source) (options : FillOptions) (expand : Bool) (body : Body) : Body :=
  if expand then { body with tables := body.tables.map (Table.expanded source options) } else body

theorem Body.paragraphs_expanded (body : Body) (source : Source) (options : FillOptions)
    (expand : Bool) : (body.expanded source options expand).paragraphs = body.paragraphs := by
  unfold expanded
  split <;> rfl

theorem Body.tables_expanded {body : Body} {t : Table} {i : Nat} (at_ : body.tables[i]? = some t)
    (source : Source) (options : FillOptions) (expand : Bool) :
    (body.expanded source options expand).tables[i]? =
      some (if expand then t.expanded source options else t) := by
  unfold expanded
  split
  · rw [List.getElem?_map, at_, Option.map_some]
  · exact at_

/-- A document with its tables expanded as a fill does it, and no scalar filled. -/
def Document.expanded (source : Source) (options : FillOptions) (d : Document) : Document :=
  let parts := fun bodies : List Body =>
    bodies.map (Body.expanded source options options.flow.expandPartTables)
  { body := d.body.expanded source options true
    headers := if options.flow.headers then parts d.headers else d.headers
    footers := if options.flow.footers then parts d.footers else d.footers }

theorem Body.paragraphs_subset {body : Body} {p : Paragraph} {i : Nat}
    (at_ : body.paragraphs[i]? = some p) (part : Part) :
    placeholdersIn p.text (.paragraph part i) ⊆ body.placeholders part := by
  intro use member
  apply List.mem_append_left
  exact List.mem_flatMap.2 ⟨(p, i), List.mem_zipIdx_iff_getElem?.2 at_, member⟩

theorem Body.tables_subset {body : Body} {t : Table} {i : Nat}
    (at_ : body.tables[i]? = some t) (part : Part) :
    t.placeholders part i ⊆ body.placeholders part := by
  intro use member
  apply List.mem_append_right
  exact List.mem_flatMap.2 ⟨(t, i), List.mem_zipIdx_iff_getElem?.2 at_, member⟩

theorem Document.body_subset (d : Document) : d.body.placeholders .body ⊆ d.placeholders :=
  fun _ member => List.mem_append_left _ (List.mem_append_left _ member)

theorem Document.headers_subset {d : Document} {body : Body} {i : Nat}
    (at_ : d.headers[i]? = some body) : body.placeholders (.header i) ⊆ d.placeholders := by
  intro use member
  apply List.mem_append_left
  apply List.mem_append_right
  exact List.mem_flatMap.2 ⟨(body, i), List.mem_zipIdx_iff_getElem?.2 at_, member⟩

theorem Document.footers_subset {d : Document} {body : Body} {i : Nat}
    (at_ : d.footers[i]? = some body) : body.placeholders (.footer i) ⊆ d.placeholders := by
  intro use member
  apply List.mem_append_right
  exact List.mem_flatMap.2 ⟨(body, i), List.mem_zipIdx_iff_getElem?.2 at_, member⟩

namespace FlowPass

variable {first second : Source} {options : FillOptions} {part : Part} {index : Nat}

theorem fillParagraph_congr {p : Paragraph} {location : Location}
    (agree : Source.AgreeOn .scalar first second (placeholdersIn p.text location))
    (place : Location) (report : Report) :
    fillParagraph ⟨first, options, false⟩ place p report =
      fillParagraph ⟨second, options, false⟩ place p report := by
  unfold fillParagraph
  rw [Paragraph.fillScalars_congr fun o member => agree.at_occurrence member]

theorem fillCell_congr {cell : TableCell} {location : Location}
    (agree : Source.AgreeOn .scalar first second (cell.placeholders location))
    (report : Report) :
    fillCell ⟨first, options, false⟩ location cell report =
      fillCell ⟨second, options, false⟩ location cell report := by
  unfold fillCell
  rw [Attempt.each_congr]
  intro i p inCell carried
  have inside := TableCell.placeholders_subset (List.mem_of_getElem? inCell) location
  exact fillParagraph_congr (agree.of_subset inside) location carried

theorem fillTableCells_congr {t : Table}
    (agree : Source.AgreeOn .scalar first second (t.placeholders part index)) (report : Report) :
    fillTableCells ⟨first, options, false⟩ part index t report =
      fillTableCells ⟨second, options, false⟩ part index t report := by
  unfold fillTableCells
  rw [Attempt.each_congr]
  intro r row inTable carried
  unfold fillRow
  rw [Attempt.each_congr]
  intro c cell inRow carried
  apply fillCell_congr
  exact agree.of_subset (Table.placeholders_subset inTable inRow part index)

theorem target_expandTable (source : Source) (options : FillOptions) (part : Part) (index : Nat)
    (t : Table) (report : Report) :
    (expandTable ⟨source, options, false⟩ part index t report).target =
      t.expanded source options := by
  unfold expandTable Table.expanded
  cases t.hasCollection with
  | true => rw [if_pos rfl, if_pos rfl, Attempt.mapResult]
  | false => rw [if_neg Bool.false_ne_true, if_neg Bool.false_ne_true, Attempt.done]

theorem fillTable_congr {t : Table} {expand : Bool}
    (collections : Source.AgreeOn .collection first second (t.placeholders part index))
    (scalars : Source.AgreeOn .scalar first second
      ((if expand then t.expanded first options else t).placeholders part index))
    (report : Report) :
    fillTable ⟨first, options, false⟩ part expand index t report =
      fillTable ⟨second, options, false⟩ part expand index t report := by
  unfold fillTable
  rw [if_neg Bool.false_ne_true, if_neg Bool.false_ne_true]
  cases expand with
  | false =>
      rw [if_neg Bool.false_ne_true] at scalars ⊢
      apply Attempt.andThen_congr rfl
      intro target value same
      cases same
      exact fillTableCells_congr scalars report
  | true =>
      have expands : expandTable ⟨first, options, false⟩ part index t report =
          expandTable ⟨second, options, false⟩ part index t report := by
        unfold expandTable
        rw [Table.expand_congr collections]
      rw [if_pos rfl] at scalars
      rw [if_pos rfl, if_pos rfl]
      apply Attempt.andThen_congr expands
      intro target value same
      have here := target_expandTable first options part index t report
      rw [expands, same] at here
      rw [← here] at scalars
      exact fillTableCells_congr scalars value

theorem fillPart_congr {body : Body} {expand : Bool}
    (collections : Source.AgreeOn .collection first second (body.placeholders part))
    (scalars : Source.AgreeOn .scalar first second
      ((body.expanded first options expand).placeholders part)) (report : Report) :
    fillPart ⟨first, options, false⟩ part expand body report =
      fillPart ⟨second, options, false⟩ part expand body report := by
  unfold fillPart
  have tables : ∀ i t, body.tables[i]? = some t → ∀ carried,
      fillTable ⟨first, options, false⟩ part expand i t carried =
        fillTable ⟨second, options, false⟩ part expand i t carried := by
    intro i t at_ carried
    have expanded := Body.tables_expanded at_ first options expand
    exact fillTable_congr (collections.of_subset (Body.tables_subset at_ part))
      (scalars.of_subset (Body.tables_subset expanded part)) carried
  have read : Attempt.each (fun i p report => if false = true then .stop p .cancelled
        else fillParagraph ⟨first, options, false⟩ (.paragraph part i) p report)
        body.paragraphs report =
      Attempt.each (fun i p report => if false = true then .stop p .cancelled
        else fillParagraph ⟨second, options, false⟩ (.paragraph part i) p report)
        body.paragraphs report := by
    apply Attempt.each_congr
    intro i p at_ carried
    rw [← Body.paragraphs_expanded body first options expand] at at_
    rw [if_neg Bool.false_ne_true, if_neg Bool.false_ne_true]
    exact fillParagraph_congr (scalars.of_subset (Body.paragraphs_subset at_ part)) _ carried
  apply Attempt.andThen_congr (congrArg _ read)
  intro target value same
  obtain ⟨inner, rfl⟩ := Attempt.done_of_within same
  exact congrArg _ (Attempt.each_congr tables value)

theorem fillParts_congr {bodies : List Body} {place : Nat → Part}
    (collections : ∀ (i : Nat) (body : Body), bodies[i]? = some body →
      Source.AgreeOn .collection first second (body.placeholders (place i)))
    (scalars : ∀ (i : Nat) (body : Body), bodies[i]? = some body →
      Source.AgreeOn .scalar first second
        ((body.expanded first options options.flow.expandPartTables).placeholders (place i)))
    (report : Report) :
    fillParts ⟨first, options, false⟩ place bodies report =
      fillParts ⟨second, options, false⟩ place bodies report := by
  apply Attempt.each_congr
  intro i body at_ carried
  exact fillPart_congr (collections i body at_) (scalars i body at_) carried

end FlowPass

/-- Filling a document reads no more from the data than the collections that the template names
and the scalars that stand in it once its tables are expanded: sources that agree on these give
the same document and the same report. -/
theorem Document.fill_congr (first second : Source) (options : FillOptions) (d : Document)
    (collections : Source.AgreeOn .collection first second d.placeholders)
    (scalars : Source.AgreeOn .scalar first second (d.expanded first options).placeholders) :
    d.fill first options false = d.fill second options false := by
  have body : ∀ report, FlowPass.fillPart ⟨first, options, false⟩ .body true d.body report =
      FlowPass.fillPart ⟨second, options, false⟩ .body true d.body report :=
    FlowPass.fillPart_congr (collections.of_subset d.body_subset)
      (scalars.of_subset (d.expanded first options).body_subset)
  have headers : ∀ report, options.flow.headers = true →
      FlowPass.fillParts ⟨first, options, false⟩ .header d.headers report =
        FlowPass.fillParts ⟨second, options, false⟩ .header d.headers report := by
    intro report wanted
    apply FlowPass.fillParts_congr
    · intro i body at_
      exact collections.of_subset (headers_subset at_)
    · intro i body at_
      apply scalars.of_subset
      apply headers_subset
      rw [expanded, if_pos wanted, List.getElem?_map, at_, Option.map_some]
  have footers : ∀ report, options.flow.footers = true →
      FlowPass.fillParts ⟨first, options, false⟩ .footer d.footers report =
        FlowPass.fillParts ⟨second, options, false⟩ .footer d.footers report := by
    intro report wanted
    apply FlowPass.fillParts_congr
    · intro i body at_
      exact collections.of_subset (footers_subset at_)
    · intro i body at_
      apply scalars.of_subset
      apply footers_subset
      rw [expanded, if_pos wanted, List.getElem?_map, at_, Option.map_some]
  unfold fill
  refine Attempt.andThen_congr (Attempt.andThen_congr (congrArg _ (body {})) ?_) ?_
  · intro target report done
    obtain ⟨inner, rfl⟩ := Attempt.done_of_within done
    dsimp only
    split
    · rename_i wanted
      rw [headers report wanted]
    · rfl
  · intro target report done
    obtain ⟨before, report', done, later⟩ := Attempt.done_of_andThen done
    obtain ⟨inner, rfl⟩ := Attempt.done_of_within done
    have kept : target.footers = d.footers := by
      split at later
      · obtain ⟨parts, rfl⟩ := Attempt.done_of_within later
        rfl
      · cases later
        rfl
    rw [kept]
    split
    · rename_i wanted
      rw [footers report wanted]
    · rfl

/-- A document of one table with one cell. -/
def Document.ofCell (text : String) : Document :=
  { body := { tables := [⟨[⟨[{ paragraphs := [⟨[{ text }]⟩] }]⟩]⟩] } }

/-- A list of one item, a name, and a note that the document does not name. -/
def noted (item note : String) : Source :=
  .ofValue (.mapping [("A", .sequence [.text item]), ("B", .text note), ("C", .text "Ann")])

theorem noted_agreeOn (kind : PlaceholderKind) (item first second : String) :
    Source.AgreeOn kind (noted item first) (noted item second)
      (Document.ofCell "[A]").placeholders := by
  have listed : (Document.ofCell "[A]").placeholders =
      [⟨.collection, "[A]", .tableCell .body 0 0 0⟩] := by cbv
  have agree : Source.AgreeAt (noted item first) (noted item second) "A" := by
    unfold Source.AgreeAt
    cbv
  exact .of_single listed (by cbv) agree

/-- The item asks for the name, and nothing asks for the note, so the note makes no difference. -/
theorem noted_fill :
    (Source.AgreeOn .collection (noted "{C}" "first") (noted "{C}" "second")
        (Document.ofCell "[A]").placeholders ∧
      Source.AgreeOn .scalar (noted "{C}" "first") (noted "{C}" "second")
        ((Document.ofCell "[A]").expanded (noted "{C}" "first") {}).placeholders) ∧
      (Document.ofCell "[A]").fill (noted "{C}" "first") {} false =
        (Document.ofCell "[A]").fill (noted "{C}" "second") {} false := by
  have collections := noted_agreeOn .collection "{C}" "first" "second"
  have scalars : Source.AgreeOn .scalar (noted "{C}" "first") (noted "{C}" "second")
      ((Document.ofCell "[A]").expanded (noted "{C}" "first") {}).placeholders := by
    have listed : ((Document.ofCell "[A]").expanded (noted "{C}" "first") {}).placeholders =
        [⟨.scalar, "{C}", .tableCell .body 0 0 0⟩] := by cbv
    have agree : Source.AgreeAt (noted "{C}" "first") (noted "{C}" "second") "C" := by
      unfold Source.AgreeAt
      cbv
    exact .of_single listed (by cbv) agree
  exact ⟨⟨collections, scalars⟩, Document.fill_congr _ _ {} _ collections scalars⟩

/-- An item that is a placeholder itself is filled in turn, with a note that the template does not
name. -/
theorem noted_item_fill :
    (∀ kind, Source.AgreeOn kind (noted "{B}" "first") (noted "{B}" "second")
      (Document.ofCell "[A]").placeholders) ∧
    (Document.ofCell "[A]").fill (noted "{B}" "first") {} false ≠
      (Document.ofCell "[A]").fill (noted "{B}" "second") {} false := by
  refine ⟨fun kind => noted_agreeOn kind "{B}" "first" "second", ?_⟩
  intro same
  have first : ((Document.ofCell "[A]").fill (noted "{B}" "first") {} false).target.body.tables =
      (Document.ofCell "first").body.tables := by cbv
  have second : ((Document.ofCell "[A]").fill (noted "{B}" "second") {} false).target.body.tables =
      (Document.ofCell "second").body.tables := by cbv
  rw [same, second] at first
  revert first
  decide

end Stencil
