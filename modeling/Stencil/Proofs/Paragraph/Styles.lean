import Mathlib
import Stencil.Proofs.Paragraph.Scalars

/-! A filled paragraph, seen character by character. A value takes the style in which its
placeholder began and all other characters keep theirs. Where nothing resolves, not even the cut
into runs changes. -/

namespace Stencil.Paragraph

variable {source : Source} {options : FillOptions}

/-- Placeholders without a value leave the runs as they are. -/
theorem fillAligned_of_absent {alignments : List Alignment}
    (absent : ∀ alignment ∈ alignments, ∀ path, scalarPath? alignment.key = some path →
      source.get? path = none) (p : Paragraph) (outcome : Outcome) :
    (fillAligned source options alignments p outcome).target = p := by
  induction alignments generalizing outcome with
  | nil => rfl
  | cons alignment rest ih =>
      have others := ih fun other member => absent other (List.mem_cons_of_mem _ member)
      rw [fillAligned]
      cases path : scalarPath? alignment.key with
      | none => exact others outcome
      | some found =>
          rw [Option.map_some, absent alignment (List.mem_cons_self ..) found path]
          exact others _

theorem fillScalars_of_absent {p : Paragraph}
    (absent : ∀ q ∈ placeholdersOf .scalar p.text, source.get? q.path = none) :
    (p.fillScalars source options).target = p := by
  unfold fillScalars
  dsimp only
  split
  · rfl
  · split
    · rename_i single
      obtain ⟨q, kind, good, whole⟩ := exists_of_isSinglePlaceholder single
      have member : q ∈ placeholdersOf .scalar p.text := by
        rw [whole, ← kind, placeholdersOf_text good]
        exact List.mem_singleton_self q
      have path := scalarPath?_of_kind good kind
      rw [← whole] at path
      rw [path, Option.map_some, absent q member]
      rfl
    · apply fillAligned_of_absent
      intro alignment member path found
      obtain ⟨o, inText, key⟩ := Cursor.exists_of_mem_alignAll (List.mem_reverse.1 member)
      rw [ofList_fragments] at inText
      obtain ⟨kind, good⟩ := wellFormed_of_mem_occurrences inText
      rw [key, scalarPath?_of_kind good kind] at found
      cases found
      apply absent
      rw [← map_placeholder_occurrences]
      exact List.mem_map_of_mem inText

/-- Filling a paragraph never fails. If its text is one placeholder with a value, its first run
takes the value and is left alone; otherwise every placeholder with a value gives way to it, in the
style in which the placeholder began, and every other character stays and keeps its style. Those
with a value are counted, the others are listed in the order of the text. A paragraph without any
value keeps its runs. -/
theorem fillScalars_restyles (source : Source) (options : FillOptions) (p : Paragraph) :
    ∃ filled outcome, p.fillScalars source options = .done filled outcome ∧
      (∀ (q : Placeholder) (found : Resolved), q.WellFormed → q.kind = .scalar →
        p.text = String.ofList q.text → source.get? q.path = some found →
        ∃ run rest, p.runs = run :: rest ∧
          filled.runs = [{ run with text := found.render options }]) ∧
      ((∀ q : Placeholder, q.WellFormed → q.kind = .scalar → p.text = String.ofList q.text →
          source.get? q.path = none) →
        filled.styledText =
          source.restyled options (pieces .scalar p.text.toList) p.styledText) ∧
      outcome =
        { filled := (placeholdersOf .scalar p.text).countP fun q => (source.get? q.path).isSome
          unresolved :=
            ((placeholdersOf .scalar p.text).filter fun q => (source.get? q.path).isNone).map
              fun q => String.ofList q.text } ∧
      ((∀ q ∈ placeholdersOf .scalar p.text, source.get? q.path = none) → filled = p) := by
  obtain ⟨filled, ran, fill⟩ := fillScalars_done source options p
  refine ⟨filled, _, ran, ?_, ?_, rfl, ?_⟩
  · intro q found good kind text resolves
    cases fill with
    | whole q' found' run rest good' kind' text' resolves' runs =>
        have same : q.text = q'.text := String.ofList_inj.1 (text.symm.trans text')
        obtain rfl := Placeholder.eq_of_text good good' (kind.trans kind'.symm) same
        cases resolves.symm.trans resolves'
        exact ⟨run, rest, runs, rfl⟩
    | spliced _ several styled => cases (several q good kind text).symm.trans resolves
  · intro several
    cases fill with
    | whole q found run rest good kind text resolves runs =>
        cases (several q good kind text).symm.trans resolves
    | spliced _ _ styled => exact styled
  · intro absent
    have same : (p.fillScalars source options).target = p := fillScalars_of_absent absent
    rw [ran] at same
    exact same

theorem text_ne_of_several {p : Paragraph} (several : (placeholdersOf .scalar p.text).length ≠ 1)
    {q : Placeholder} (good : q.WellFormed) (kind : q.kind = .scalar) :
    p.text ≠ String.ofList q.text := by
  intro whole
  rw [whole, ← kind, placeholdersOf_text good] at several
  exact several rfl

/-- A name that is cut in two, a title without a value and an age right behind it. -/
def addressLine : Paragraph :=
  ⟨[{ text := "Dear \x7bNa", style := 1 }, { text := "me\x7d", style := 2 },
    { text := ", {Title}{Age}", style := 3 }]⟩

/-- An age behind an empty run. -/
def ageLine : Paragraph := ⟨[{ text := "", style := 4 }, { text := "{Age}", style := 5 }]⟩

/-- A title that is cut in two. -/
def titleLine : Paragraph := ⟨[{ text := "\x7bTi", style := 6 }, { text := "tle\x7d" }]⟩

def recipient : Source := .ofValue (.mapping [("Name", .text "Ann"), ("Age", .int 7)])

theorem titleLine_absent {q : Placeholder} (member : q ∈ placeholdersOf .scalar titleLine.text) :
    recipient.get? q.path = none := by
  have only : placeholdersOf .scalar titleLine.text = [.scalar ['T', 'i', 't', 'l', 'e']] := by cbv
  rw [only, List.mem_singleton] at member
  rw [member]
  cbv

/-- The name takes the style of the run in which it begins, and the run it ended in is gone. The
age takes the style of the empty run. -/
theorem addressLine_restyled :
    (∃ filled outcome, addressLine.fillScalars recipient {} = .done filled outcome ∧
      filled.styledText = inStyle 1 "Dear Ann".toList ++ inStyle 3 ", {Title}7".toList ∧
      outcome = { filled := 2, unresolved := ["{Title}"] }) ∧
    (∃ filled outcome, ageLine.fillScalars recipient {} = .done filled outcome ∧
      filled.runs = [{ text := "7", style := 4 }]) ∧
    ∃ outcome, titleLine.fillScalars recipient {} = .done titleLine outcome := by
  refine ⟨?_, ?_, ?_⟩
  · obtain ⟨filled, outcome, ran, -, styled, counted, -⟩ :=
      fillScalars_restyles recipient {} addressLine
    refine ⟨filled, outcome, ran, ?_, ?_⟩
    · rw [styled fun q good kind whole => absurd whole (text_ne_of_several (by cbv) good kind)]
      cbv
    · rw [counted]
      cbv
  · obtain ⟨filled, outcome, ran, single, -⟩ := fillScalars_restyles recipient {} ageLine
    refine ⟨filled, outcome, ran, ?_⟩
    obtain ⟨run, rest, runs, taken⟩ := single (.scalar ['A', 'g', 'e']) ⟨"Age", .int 7, none⟩
      (by decide) rfl (by decide) (by cbv)
    cases runs
    exact taken
  · obtain ⟨filled, outcome, ran, -, -, -, kept⟩ := fillScalars_restyles recipient {} titleLine
    rw [kept fun q member => titleLine_absent member] at ran
    exact ⟨outcome, ran⟩

end Stencil.Paragraph
