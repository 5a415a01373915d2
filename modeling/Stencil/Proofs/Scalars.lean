import Stencil.Proofs.Paragraph.Styles
import Stencil.Proofs.Sheet.Scalars

/-! A paragraph and a sheet cell with the same text are filled alike, whatever runs the paragraph
is made of: they report the same and come to the same text. Only a text that is one placeholder
with a value is written differently, as text in the paragraph and as a typed value in the cell. -/

namespace Stencil

open Paragraph (recipient)

theorem CellValue.toText_ofValue (options : FillOptions) (format : Option String) {value : Value}
    (undated : ∀ date, value ≠ .date date) :
    (ofValue options format value).toText = value.render options format := by
  cases value with
  | date date => exact absurd rfl (undated date)
  | _ => rfl

variable {source : Source} {options : FillOptions}

namespace Source

variable {text : String}

theorem filled_pos_iff (source : Source) (text : String) :
    0 < (source.outcomeOf (placeholdersOf .scalar text)).filled ↔
      ∃ p ∈ placeholdersOf .scalar text, (source.get? p.path).isSome = true :=
  List.countP_pos_iff

/-- A text in which nothing resolves is not written. -/
theorem filledValue?_of_absent
    (absent : ∀ p ∈ placeholdersOf .scalar text, source.get? p.path = none) :
    source.filledValue? options text = none := by
  by_cases single : (classify .scalar text).isSinglePlaceholder = true
  · obtain ⟨p, kind, good, rfl⟩ := exists_of_isSinglePlaceholder single
    have member : p ∈ placeholdersOf .scalar (String.ofList p.text) := by
      rw [← kind, placeholdersOf_text good]
      exact List.mem_singleton_self p
    have none := absent p member
    rw [filledValue?_text source options good kind, none, Option.map_none]
  · rw [filledValue?, if_neg single]
    dsimp only
    rw [replaceScalars_pieces, if_neg]
    rw [filled_pos_iff]
    rintro ⟨p, member, resolves⟩
    rw [absent p member] at resolves
    cases resolves

theorem replaceScalars_of_absent
    (absent : ∀ p ∈ placeholdersOf .scalar text, source.get? p.path = none) :
    (replaceScalars source options (pieces .scalar text.toList)).1 = text.toList := by
  have chars : (Paragraph.inStyle 0 text.toList).map Prod.fst =
      (pieces .scalar text.toList).flatMap Piece.text := by
    rw [Paragraph.map_fst_inStyle, flatMap_text_pieces]
  have nothing : ∀ p, .placeholder p ∈ pieces .scalar text.toList → source.get? p.path = none :=
    fun p member => absent p (List.mem_filterMap.2 ⟨_, member, rfl⟩)
  rw [← map_fst_restyled (fun p member => (wellFormed_of_mem_pieces member).1) chars,
    restyled_of_none nothing chars, Paragraph.map_fst_inStyle]

/-- A text that is no placeholder with a value is written as text, if at all. -/
theorem filledValue?_getD
    (several : ∀ p : Placeholder, p.WellFormed → p.kind = .scalar → text = String.ofList p.text →
      source.get? p.path = none) :
    (source.filledValue? options text).getD (.text text) =
      .text (String.ofList (replaceScalars source options (pieces .scalar text.toList)).1) := by
  by_cases absent : ∀ p ∈ placeholdersOf .scalar text, source.get? p.path = none
  · rw [filledValue?_of_absent absent, Option.getD_none, replaceScalars_of_absent absent,
      String.ofList_toList]
  · have single : ¬(classify .scalar text).isSinglePlaceholder = true := by
      intro single
      obtain ⟨p, kind, good, whole⟩ := exists_of_isSinglePlaceholder single
      apply absent
      intro q member
      rw [whole, ← kind, placeholdersOf_text good, List.mem_singleton] at member
      rw [member, several p good kind whole]
    have resolves : 0 < (source.outcomeOf (placeholdersOf .scalar text)).filled := by
      rw [filled_pos_iff]
      by_contra none
      apply absent
      intro p member
      by_contra found
      exact none ⟨p, member, Option.isSome_iff_ne_none.2 found⟩
    rw [filledValue?, if_neg single]
    dsimp only
    rw [replaceScalars_pieces, if_pos resolves, Option.getD_some]

end Source

theorem Paragraph.text_of_restyled {p filled : Paragraph}
    (styled : filled.styledText =
      source.restyled options (pieces .scalar p.text.toList) p.styledText) :
    filled.text =
      String.ofList (replaceScalars source options (pieces .scalar p.text.toList)).1 := by
  have chars : p.styledText.map Prod.fst = (pieces .scalar p.text.toList).flatMap Piece.text := by
    rw [map_fst_styledText, flatMap_text_pieces]
  rw [← Source.map_fst_restyled (fun q member => (wellFormed_of_mem_pieces member).1) chars,
    ← styled, map_fst_styledText, String.ofList_toList]

namespace Sheet

variable {s : Sheet} {row column : Nat} {text : String}

theorem value?_refilled (held : s.text? row column = some text) :
    (s.refilled source options row column).value? row column =
      some ((source.filledValue? options text).getD (.text text)) := by
  obtain ⟨cell, present, shown⟩ := (text?_eq_some_iff ..).1 held
  rw [value?, cell?_refilled_self, present, Option.map_some, Option.map_some, Cell.refilled, shown]
  rfl

end Sheet

/-- A text is filled alike in a paragraph, in whatever runs it is, and in a sheet cell. The outcome
is the same. If the text is one placeholder that resolves, the paragraph takes its value as text
and the cell takes the value itself, which reads as that text unless it is a date; any other text
is the same in both afterwards. -/
theorem fillScalars_alike (source : Source) (options : FillOptions) (p : Paragraph) (s : Sheet)
    (row column : Nat) (held : s.text? row column = some p.text) :
    ∃ filled next outcome,
      p.fillScalars source options = .done filled outcome ∧
      s.fillScalarsAt source options row column = .done next outcome ∧
      ((∀ q : Placeholder, q.WellFormed → q.kind = .scalar → p.text = String.ofList q.text →
          source.get? q.path = none) →
        next.value? row column = some (.text filled.text)) ∧
      ∀ (q : Placeholder) (found : Resolved), q.WellFormed → q.kind = .scalar →
        p.text = String.ofList q.text → source.get? q.path = some found →
        filled.text = found.value.render options found.format ∧
        next.value? row column = some (.ofValue options found.format found.value) ∧
        ((∀ date, found.value ≠ .date date) →
          (CellValue.ofValue options found.format found.value).toText =
            found.value.render options found.format) := by
  obtain ⟨filled, ran, fill⟩ := Paragraph.fillScalars_done source options p
  have visited := Sheet.fillScalarsAt_eq source options s row column
  rw [Sheet.scalarOutcome, held, Option.elim_some] at visited
  refine ⟨filled, _, _, ran, visited, ?_, ?_⟩
  · intro several
    rw [Sheet.value?_refilled held]
    cases fill with
    | whole q found run rest good kind text resolves runs =>
        cases (several q good kind text).symm.trans resolves
    | spliced _ _ styled => rw [Source.filledValue?_getD several, Paragraph.text_of_restyled styled]
  · intro q found good kind text resolves
    rw [Sheet.value?_refilled held, text, Source.filledValue?_text source options good kind,
      resolves]
    refine ⟨?_, rfl, CellValue.toText_ofValue options found.format⟩
    cases fill with
    | whole q' found' run rest good' kind' text' resolves' runs =>
        have same : q.text = q'.text := String.ofList_inj.1 (text.symm.trans text')
        obtain rfl := Placeholder.eq_of_text good good' (kind.trans kind'.symm) same
        cases resolves.symm.trans resolves'
        simp [Paragraph.text, Resolved.render]
    | spliced _ several styled => cases (several q good kind text).symm.trans resolves

/-- A salutation with a name that is cut in two. -/
def salutation : Paragraph := ⟨[{ text := "Dear \x7bNa" }, { text := "me\x7d, {Title}" }]⟩

/-- The salutation is the same in a cell; the age is a number there. -/
theorem salutation_alike :
    ((Sheet.ofTexts [(0, [(0, "Dear {Name}, {Title}")])]).text? 0 0 = some salutation.text ∧
      ∃ filled next outcome,
        salutation.fillScalars recipient {} = .done filled outcome ∧
        (Sheet.ofTexts [(0, [(0, "Dear {Name}, {Title}")])]).fillScalarsAt recipient {} 0 0 =
          .done next outcome ∧
        next.value? 0 0 = some (.text filled.text)) ∧
    (Sheet.ofTexts [(0, [(0, "{Age}")])]).text? 0 0 =
        some (⟨[{ text := "{Age}" }]⟩ : Paragraph).text ∧
      ∃ filled next outcome,
        (⟨[{ text := "{Age}" }]⟩ : Paragraph).fillScalars recipient {} = .done filled outcome ∧
        (Sheet.ofTexts [(0, [(0, "{Age}")])]).fillScalarsAt recipient {} 0 0 = .done next outcome ∧
        filled.text = "7" ∧ next.value? 0 0 = some (.int 7) := by
  have several : (Sheet.ofTexts [(0, [(0, "Dear {Name}, {Title}")])]).text? 0 0 =
      some salutation.text := by cbv
  have single : (Sheet.ofTexts [(0, [(0, "{Age}")])]).text? 0 0 =
      some (⟨[{ text := "{Age}" }]⟩ : Paragraph).text := by cbv
  obtain ⟨filled, next, outcome, inText, inCell, same, -⟩ :=
    fillScalars_alike recipient {} salutation _ 0 0 several
  refine ⟨⟨several, filled, next, outcome, inText, inCell, same ?_⟩, single, ?_⟩
  · exact fun q good kind whole =>
      absurd whole (Paragraph.text_ne_of_several (by cbv) good kind)
  · obtain ⟨filled, next, outcome, inText, inCell, -, typed⟩ :=
      fillScalars_alike recipient {} ⟨[{ text := "{Age}" }]⟩ _ 0 0 single
    obtain ⟨shown, kept, -⟩ := typed (.scalar ['A', 'g', 'e']) ⟨"Age", .int 7, none⟩
      (by decide) rfl (by decide) (by cbv)
    exact ⟨filled, next, outcome, inText, inCell, shown, kept⟩

end Stencil
