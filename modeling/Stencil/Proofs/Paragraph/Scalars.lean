import Stencil.Paragraph.Splice
import Stencil.Proofs.Paragraph.Alignment
import Stencil.Proofs.Report

/-! What filling the scalar placeholders of a paragraph comes to, whatever runs the text is made
of. Placeholders are filled from the last to the first, so the runs before each of them, and the
text before it in its own run, stand as they did when the paragraph was aligned. What is behind
has its values in it by then, each in the style in which its placeholder began. -/

namespace Stencil

open Text

namespace Paragraph

variable {source : Source} {options : FillOptions}

/-- The text of runs, one after the other. -/
def concatText (runs : List Run) : List Char := concat (runs.map Run.text)

@[simp] theorem concatText_nil : concatText [] = [] := rfl

@[simp] theorem concatText_cons (run : Run) (rest : List Run) :
    concatText (run :: rest) = run.text.toList ++ concatText rest := concat_cons ..

@[simp] theorem concatText_append (front back : List Run) :
    concatText (front ++ back) = concatText front ++ concatText back := by
  rw [concatText, List.map_append, concat_append]
  rfl

theorem toList_text (p : Paragraph) : p.text.toList = concatText p.runs := by
  rw [text, String.toList_ofList, concatText, concat, List.flatMap_map]

/-- Runs whose texts split like these. -/
private theorem exists_runs {runs : List Run} {before rest : List String} {fragment : String}
    (split : runs.map Run.text = before ++ fragment :: rest) :
    ∃ passed run later, runs = passed ++ run :: later ∧ passed.map Run.text = before ∧
      run.text = fragment ∧ later.map Run.text = rest := by
  obtain ⟨passed, others, rfl, same, more⟩ := List.map_eq_append_iff.1 split
  obtain ⟨run, later, rfl, here, behind⟩ := List.map_eq_cons_iff.1 more
  exact ⟨passed, run, later, rfl, same, here, behind⟩

/-- A stretch `key` behind `front` in the text of runs, the spans that cover it, and where a walk
over the texts of the runs is then. -/
inductive LiesIn (index offset : Nat) (runs : List Run) (front key : List Char)
    (spans : List Span) (cursor : Cursor) : Prop
  | within (before rest : List Run) (run : Run) (head behind : List Char)
      (split : runs = before ++ run :: rest)
      (start : front = concatText before ++ head)
      (text : run.text.toList = head ++ key ++ behind)
      (covers : spans = [⟨index + before.length, bytes head, bytes key⟩])
      (stays : cursor = ⟨index + before.length, offset + bytes (concatText before),
        (run :: rest).map Run.text⟩)
  | across (before between rest : List Run) (first last : Run)
      (head opening closing behind : List Char)
      (split : runs = before ++ first :: between ++ last :: rest)
      (start : front = concatText before ++ head)
      (covered : key = opening ++ concatText between ++ closing)
      (textFirst : first.text.toList = head ++ opening)
      (textLast : last.text.toList = closing ++ behind)
      (opens : opening ≠ [])
      (closes : closing ≠ [])
      (covers : spans = ⟨index + before.length, bytes head, bytes opening⟩ ::
        (Span.whole (index + before.length + 1) (between.map Run.text) ++
          [⟨index + before.length + 1 + between.length, 0, bytes closing⟩]))
      (stays : cursor = ⟨index + before.length + 1 + between.length,
        offset + bytes (concatText (before ++ first :: between)), (last :: rest).map Run.text⟩)

theorem LiesIn.of_lies {index offset : Nat} {runs : List Run} {front key : List Char}
    {spans : List Span} {cursor : Cursor}
    (lies : Cursor.Lies index offset (runs.map Run.text) front key spans cursor) :
    LiesIn index offset runs front key spans cursor := by
  cases lies with
  | within before rest fragment head behind split start text covers stays =>
      obtain ⟨passed, run, later, rfl, rfl, rfl, rfl⟩ := exists_runs split
      rw [List.length_map] at covers stays
      exact .within passed later run head behind rfl start text covers stays
  | across before between rest first last head opening closing behind split start covered
      textFirst textLast opens closes covers stays =>
      rw [List.append_assoc, List.cons_append] at split
      obtain ⟨passed, run, following, rfl, rfl, rfl, split'⟩ := exists_runs split
      obtain ⟨inner, run', later, rfl, rfl, rfl, rfl⟩ := exists_runs split'
      rw [List.length_map, List.length_map] at covers stays
      rw [← List.map_cons, ← List.map_append] at stays
      refine .across passed inner later run run' head opening closing behind ?_ start covered
        textFirst textLast opens closes covers stays
      rw [List.append_assoc, List.cons_append]

theorem fillAligned_append (first second : List Alignment) (p : Paragraph) (outcome : Outcome) :
    fillAligned source options (first ++ second) p outcome =
      (fillAligned source options first p outcome).andThen
        (fillAligned source options second) := by
  induction first generalizing p outcome with
  | nil => rfl
  | cons alignment rest ih =>
      rw [List.cons_append, fillAligned, fillAligned]
      split
      · exact ih ..
      · exact ih ..
      · obtain ⟨middle, result⟩ := p.splice alignment _
        cases result with
        | error e => rfl
        | ok value => exact ih ..

/-! ### Styled text -/

/-- A text in one style. -/
def inStyle (style : UInt32) (text : List Char) : List (Char × UInt32) := text.map (·, style)

@[simp] theorem inStyle_nil (style : UInt32) : inStyle style [] = [] := rfl

@[simp] theorem inStyle_append (style : UInt32) (front back : List Char) :
    inStyle style (front ++ back) = inStyle style front ++ inStyle style back := List.map_append

@[simp] theorem map_fst_inStyle (style : UInt32) (text : List Char) :
    (inStyle style text).map Prod.fst = text := by
  simp [inStyle, Function.comp_def]

/-- The characters of runs, each with the style it is set in. -/
def styled (runs : List Run) : List (Char × UInt32) :=
  runs.flatMap fun run => inStyle run.style run.text.toList

@[simp] theorem styled_nil : styled [] = [] := rfl

@[simp] theorem styled_cons (run : Run) (rest : List Run) :
    styled (run :: rest) = inStyle run.style run.text.toList ++ styled rest := List.flatMap_cons ..

@[simp] theorem styled_append (front back : List Run) :
    styled (front ++ back) = styled front ++ styled back := List.flatMap_append ..

@[simp] theorem map_fst_styled (runs : List Run) :
    (styled runs).map Prod.fst = concatText runs := by
  induction runs with
  | nil => rfl
  | cons run rest ih => rw [styled_cons, List.map_append, map_fst_inStyle, ih, concatText_cons]

theorem styledText_eq (p : Paragraph) : p.styledText = styled p.runs := rfl

/-- The style that a styled text begins in. -/
def leadingStyle (text : List (Char × UInt32)) : UInt32 := (text.map Prod.snd).headD 0

theorem leadingStyle_append {opening : List Char} (opens : opening ≠ []) (style : UInt32)
    (more : List (Char × UInt32)) : leadingStyle (inStyle style opening ++ more) = style := by
  obtain ⟨c, rest, rfl⟩ := List.exists_cons_of_ne_nil opens
  rfl

/-- Styled texts that are put together from texts of the same characters are so part by part. -/
theorem styled_inj {front behind front' behind' : List (Char × UInt32)}
    (whole : front ++ behind = front' ++ behind')
    (same : front.map Prod.fst = front'.map Prod.fst) : front = front' ∧ behind = behind' := by
  apply List.append_inj whole
  rw [← List.length_map Prod.fst, same, List.length_map]

end Paragraph

namespace Source

open Paragraph

/-- What stands in the place of a placeholder after the fill: its value in the style that it
begins in, or itself. -/
def exchanged (source : Source) (options : FillOptions) (p : Placeholder)
    (written : List (Char × UInt32)) : List (Char × UInt32) :=
  (source.get? p.path).elim written fun found =>
    inStyle (leadingStyle written) (found.render options).toList

/-- Styled text after the fill, for the pieces that its characters make up. -/
def restyled (source : Source) (options : FillOptions) :
    List Piece → List (Char × UInt32) → List (Char × UInt32)
  | [], _ => []
  | .plain _ :: rest, text => text.take 1 ++ source.restyled options rest (text.drop 1)
  | .placeholder p :: rest, text =>
      source.exchanged options p (text.take p.text.length) ++
        source.restyled options rest (text.drop p.text.length)

theorem restyled_plain (source : Source) (options : FillOptions) (c : Char) (rest : List Piece)
    (here : Char × UInt32) (behind : List (Char × UInt32)) :
    source.restyled options (.plain c :: rest) (here :: behind) =
      here :: source.restyled options rest behind := rfl

theorem restyled_placeholder (source : Source) (options : FillOptions) {p : Placeholder}
    (rest : List Piece) {written : List (Char × UInt32)} (behind : List (Char × UInt32))
    (same : written.map Prod.fst = p.text) :
    source.restyled options (.placeholder p :: rest) (written ++ behind) =
      source.exchanged options p written ++ source.restyled options rest behind := by
  rw [restyled, ← same, List.length_map, List.take_left, List.drop_left]

/-- A text in which nothing resolves stays as it is. -/
theorem restyled_of_none {source : Source} {options : FillOptions} {found : List Piece}
    (absent : ∀ p, .placeholder p ∈ found → source.get? p.path = none)
    {text : List (Char × UInt32)} (same : text.map Prod.fst = found.flatMap Piece.text) :
    source.restyled options found text = text := by
  induction found generalizing text with
  | nil => exact (List.map_eq_nil_iff.1 same).symm
  | cons piece rest ih =>
      have others : ∀ p, .placeholder p ∈ rest → source.get? p.path = none :=
        fun p member => absent p (List.mem_cons_of_mem _ member)
      rw [List.flatMap_cons, List.map_eq_append_iff] at same
      obtain ⟨written, behind, rfl, here, later⟩ := same
      cases piece with
      | plain c =>
          obtain ⟨one, nothing, rfl, -, empty⟩ := List.map_eq_cons_iff.1 here
          cases List.map_eq_nil_iff.1 empty
          exact congrArg (one :: ·) (ih others later)
      | placeholder p =>
          rw [restyled_placeholder source options rest behind here, ih others later, exchanged,
            absent p (List.mem_cons_self ..), Option.elim_none]

/-- The characters after the fill of a styled text are those after the fill of its characters. -/
theorem map_fst_restyled {source : Source} {options : FillOptions} {found : List Piece}
    (scalars : ∀ p, .placeholder p ∈ found → p.kind = .scalar) {text : List (Char × UInt32)}
    (same : text.map Prod.fst = found.flatMap Piece.text) :
    (source.restyled options found text).map Prod.fst =
      (replaceScalars source options found).1 := by
  induction found generalizing text with
  | nil => rfl
  | cons piece rest ih =>
      have others : ∀ p, .placeholder p ∈ rest → p.kind = .scalar :=
        fun p member => scalars p (List.mem_cons_of_mem _ member)
      rw [List.flatMap_cons, List.map_eq_append_iff] at same
      obtain ⟨written, behind, rfl, here, later⟩ := same
      cases piece with
      | plain c =>
          obtain ⟨one, nothing, rfl, char, empty⟩ := List.map_eq_cons_iff.1 here
          cases List.map_eq_nil_iff.1 empty
          rw [List.singleton_append, restyled_plain, List.map_cons, ih others later, char]
          rfl
      | placeholder p =>
          rw [restyled_placeholder source options rest behind here, List.map_append,
            ih others later, exchanged]
          cases p with
          | collection path property => cases scalars _ (List.mem_cons_self ..)
          | scalar path =>
              cases found : source.get? (String.ofList path) with
              | none => simp [replaceScalars, Placeholder.path, Piece.text, found, here]
              | some value => simp [replaceScalars, Placeholder.path, found]

end Source

namespace Paragraph

variable {source : Source} {options : FillOptions}

/-- A paragraph that begins with the given runs, goes on with the text `front` in a run of the
given style, and has the styled text `behind` after that. -/
def Stands (before : List Run) (style : UInt32) (front : List Char)
    (behind : List (Char × UInt32)) (p : Paragraph) : Prop :=
  ∃ text rest back, p = ⟨before ++ { text, style } :: rest⟩ ∧ text.toList = front ++ back ∧
    behind = inStyle style back ++ styled rest

theorem Stands.styledText {before : List Run} {style : UInt32} {front : List Char}
    {behind : List (Char × UInt32)} {p : Paragraph} (stands : Stands before style front behind p) :
    p.styledText = styled before ++ inStyle style front ++ behind := by
  obtain ⟨text, rest, back, rfl, shape, rfl⟩ := stands
  simp [styledText_eq, shape]

theorem Stands.shorten {before : List Run} {style : UInt32} {front back : List Char}
    {behind : List (Char × UInt32)} {p : Paragraph}
    (stands : Stands before style (front ++ back) behind p) :
    Stands before style front (inStyle style back ++ behind) p := by
  obtain ⟨text, rest, more, shape, here, rfl⟩ := stands
  refine ⟨text, rest, back ++ more, shape, by rw [here, List.append_assoc], ?_⟩
  rw [inStyle_append, List.append_assoc]

theorem Stands.earlier {before between : List Run} {first : Run} {style : UInt32}
    {head opening front : List Char} {behind : List (Char × UInt32)} {p : Paragraph}
    (text : first.text.toList = head ++ opening)
    (stands : Stands (before ++ first :: between) style front behind p) :
    Stands before first.style head
      (inStyle first.style opening ++ (styled between ++ (inStyle style front ++ behind))) p := by
  obtain ⟨here, rest, back, shape, inside, rfl⟩ := stands
  refine ⟨first.text, between ++ { text := here, style } :: rest, opening, ?_, text, ?_⟩
  · rw [shape, List.append_assoc, List.cons_append]
  · simp [inside]

/-- What a walk over the runs has passed stays where it is. -/
theorem Stands.of_passed {before passed rest later : List Run} {run first : Run}
    {front back head : List Char} {gap behind : List (Char × UInt32)} {p : Paragraph}
    (runs : run :: rest = passed ++ first :: later) (text : run.text.toList = front ++ back)
    (start : inStyle run.style front ++ gap = styled passed ++ inStyle first.style head)
    (stands : Stands (before ++ passed) first.style head behind p) :
    Stands before run.style front (gap ++ behind) p := by
  cases passed with
  | nil =>
      obtain ⟨rfl, -⟩ := List.cons.inj runs
      obtain ⟨front', gap', rfl, same, rfl⟩ := List.map_eq_append_iff.1 start.symm
      have here : front' = front := by
        rw [← map_fst_inStyle run.style front, ← same, ← inStyle, map_fst_inStyle]
      subst here
      rw [List.append_nil] at stands
      exact stands.shorten
  | cons run' passed =>
      obtain ⟨rfl, -⟩ := List.cons.inj runs
      rw [styled_cons, text, inStyle_append, List.append_assoc, List.append_assoc,
        List.append_cancel_left_eq] at start
      rw [start, List.append_assoc, List.append_assoc]
      exact stands.earlier text

section splice

variable {before passed between rest later : List Run} {run first last : Run}
  {front back head opening closing key : List Char} {gap behind : List (Char × UInt32)}
  {p : Paragraph} {alignment : Alignment}

theorem Stands.splice_within (runs : run :: rest = passed ++ first :: later)
    (text : run.text.toList = front ++ back)
    (start : inStyle run.style front ++ gap = styled passed ++ inStyle first.style head)
    (covers : alignment.spans = [⟨before.length + passed.length, bytes head, bytes key⟩])
    (stands : Stands (before ++ passed) first.style (head ++ key) behind p) (replacement : String) :
    ∃ next, p.splice alignment replacement = .done next () ∧
      Stands before run.style front
        (gap ++ (inStyle first.style replacement.toList ++ behind)) next := by
  obtain ⟨here, more, after, rfl, inside, rfl⟩ := stands
  refine ⟨_, Paragraph.splice_within replacement inside ?_, ?_⟩
  · rw [covers, List.length_append]
  · refine of_passed runs text start ⟨_, more, replacement.toList ++ after, rfl, ?_, ?_⟩
    · simp
    · rw [inStyle_append, List.append_assoc]

theorem Stands.splice_across {inner : List Span}
    (runs : run :: rest = passed ++ first :: (between ++ last :: later))
    (text : run.text.toList = front ++ back)
    (start : inStyle run.style front ++ gap = styled passed ++ inStyle first.style head)
    (textFirst : first.text.toList = head ++ opening)
    (covers : alignment.spans = ⟨before.length + passed.length, bytes head, bytes opening⟩ ::
      (inner ++ [⟨before.length + passed.length + 1 + between.length, 0, bytes closing⟩]))
    (stands : Stands (before ++ passed ++ first :: between) last.style closing behind p)
    (replacement : String) :
    ∃ next, p.splice alignment replacement = .done next () ∧
      Stands before run.style front
        (gap ++ (inStyle first.style replacement.toList ++ behind)) next := by
  obtain ⟨here, more, after, rfl, textLast, rfl⟩ := stands
  rw [← List.length_append] at covers
  refine ⟨_, Paragraph.splice_across replacement textFirst textLast rfl covers, ?_⟩
  refine of_passed runs text start ⟨_, _, replacement.toList, rfl, by simp, ?_⟩
  by_cases empty : after = []
  · rw [if_pos empty, empty, inStyle_nil, List.nil_append]
  · rw [if_neg empty, styled_cons, String.toList_ofList]

/-- The text `written` of an alignment stands where it was aligned, and any other can be put in its
place, in the style that it begins in. -/
structure Awaits (before : List Run) (style : UInt32) (front : List Char)
    (gap written behind : List (Char × UInt32)) (alignment : Alignment) (p : Paragraph) : Prop where
  stands : Stands before style front (gap ++ (written ++ behind)) p
  splices : ∀ text : String, ∃ next, p.splice alignment text = .done next () ∧
    Stands before style front
      (gap ++ (inStyle (leadingStyle written) text.toList ++ behind)) next

theorem Awaits.within (goes : key ≠ []) (runs : run :: rest = passed ++ first :: later)
    (text : run.text.toList = front ++ back)
    (start : inStyle run.style front ++ gap = styled passed ++ inStyle first.style head)
    (covers : alignment.spans = [⟨before.length + passed.length, bytes head, bytes key⟩])
    (stands : Stands (before ++ passed) first.style (head ++ key) behind p) :
    Awaits before run.style front gap (inStyle first.style key) behind alignment p := by
  have leads : leadingStyle (inStyle first.style key) = first.style := by
    rw [← List.append_nil (inStyle ..), leadingStyle_append goes]
  refine ⟨stands.shorten.of_passed runs text start, fun replacement => ?_⟩
  rw [leads]
  exact stands.splice_within runs text start covers replacement

theorem Awaits.across {inner : List Span} (opens : opening ≠ [])
    (runs : run :: rest = passed ++ first :: (between ++ last :: later))
    (text : run.text.toList = front ++ back)
    (start : inStyle run.style front ++ gap = styled passed ++ inStyle first.style head)
    (textFirst : first.text.toList = head ++ opening)
    (covers : alignment.spans = ⟨before.length + passed.length, bytes head, bytes opening⟩ ::
      (inner ++ [⟨before.length + passed.length + 1 + between.length, 0, bytes closing⟩]))
    (stands : Stands (before ++ passed ++ first :: between) last.style closing behind p) :
    Awaits before run.style front gap
      (inStyle first.style opening ++ (styled between ++ inStyle last.style closing)) behind
      alignment p := by
  refine ⟨?_, fun replacement => ?_⟩
  · have stays := (stands.earlier textFirst).of_passed runs text start
    simpa using stays
  · rw [leadingStyle_append opens]
    exact stands.splice_across runs text start textFirst covers replacement

end splice

/-- The first of some placeholders is filled last. It is left as it is or exchanged for its
value. -/
theorem fillAligned_cons {before : List Run} {style : UInt32} {front : List Char}
    {gap written behind : List (Char × UInt32)} {p middle : Paragraph} {alignment : Alignment}
    {later : List Alignment} {placeholder : Placeholder} {others : List Placeholder}
    (good : placeholder.WellFormed) (kind : placeholder.kind = .scalar)
    (key : alignment.key = String.ofList placeholder.text)
    (ran : fillAligned source options later.reverse p {} = .done middle (source.outcomeOf others))
    (awaits : Awaits before style front gap written behind alignment middle) :
    ∃ next, fillAligned source options (alignment :: later).reverse p {} =
      .done next (source.outcomeOf (placeholder :: others)) ∧
        Stands before style front
          (gap ++ (source.exchanged options placeholder written ++ behind)) next := by
  have path := scalarPath?_of_kind good kind
  rw [List.reverse_cons, fillAligned_append, ran, Attempt.andThen_done, fillAligned, key, path,
    Option.map_some, Source.exchanged]
  cases found : source.get? placeholder.path with
  | none =>
      rw [Source.outcomeOf_cons_of_none found]
      exact ⟨middle, rfl, awaits.stands⟩
  | some value =>
      rw [Source.outcomeOf_cons_of_some found]
      obtain ⟨next, spliced, holds⟩ := awaits.splices (value.render options)
      dsimp only
      rw [spliced]
      exact ⟨next, rfl, holds⟩

/-- Aligned from a run on, the placeholders among the pieces are all reported and exchanged, and
what is before them is left as it is. -/
def Fills (source : Source) (options : FillOptions) (found : List Piece) : Prop :=
  ∀ (before rest : List Run) (run : Run) (offset : Nat) (front back : List Char)
      (gap here : List (Char × UInt32)),
    styled (run :: rest) = inStyle run.style front ++ gap ++ here →
    here.map Prod.fst = found.flatMap Piece.text →
    run.text.toList = front ++ back →
    ∃ filled, fillAligned source options
        ((Cursor.mk before.length offset ((run :: rest).map Run.text)).alignAll
          (Occurrence.among (offset + bytes (front ++ gap.map Prod.fst)) found)).reverse
        ⟨before ++ run :: rest⟩ {} =
        .done filled (source.outcomeOf (found.filterMap Piece.placeholder?)) ∧
      Stands before run.style front (gap ++ source.restyled options found here) filled

theorem Fills.nil : Fills source options [] := by
  intro before rest run offset front back gap here whole same text
  cases List.map_eq_nil_iff.1 same
  refine ⟨_, rfl, run.text, rest, back, rfl, text, ?_⟩
  rw [styled_cons, text, inStyle_append, List.append_nil, List.append_assoc,
    List.append_cancel_left_eq] at whole
  rw [whole, Source.restyled, List.append_nil]

theorem Fills.plain {more : List Piece} (fills : Fills source options more) (c : Char) :
    Fills source options (.plain c :: more) := by
  intro before rest run offset front back gap here whole same text
  obtain ⟨one, behind, rfl, rfl, later⟩ := List.map_eq_cons_iff.1 same
  have place : offset + bytes (front ++ gap.map Prod.fst) + one.1.utf8Size =
      offset + bytes (front ++ (gap ++ [one]).map Prod.fst) := by
    simp only [List.map_append, List.map_cons, List.map_nil, bytes_append, bytes]
    omega
  have split : styled (run :: rest) = inStyle run.style front ++ (gap ++ [one]) ++ behind := by
    rw [whole]
    simp
  obtain ⟨filled, ran, stands⟩ :=
    fills before rest run offset front back (gap ++ [one]) behind split later text
  rw [Occurrence.among, place, Source.restyled_plain]
  refine ⟨filled, ran, ?_⟩
  rwa [List.append_assoc, List.singleton_append] at stands

section later

variable {more : List Piece} {before passed between rest later : List Run} {run first last : Run}
  {offset : Nat} {front back key head opening closing tail : List Char}
  {gap written behind : List (Char × UInt32)} {alignment : Alignment}

/-- Behind a placeholder that one run holds, the walk goes on in that run. -/
theorem Fills.within (fills : Fills source options more) (goes : key ≠ [])
    (runs : run :: rest = passed ++ first :: later) (text : run.text.toList = front ++ back)
    (start : front ++ gap.map Prod.fst = concatText passed ++ head)
    (inside : first.text.toList = head ++ key ++ tail)
    (covers : alignment.spans = [⟨before.length + passed.length, bytes head, bytes key⟩])
    (whole : styled (run :: rest) = inStyle run.style front ++ gap ++ (written ++ behind))
    (same : written.map Prod.fst = key) (chars : behind.map Prod.fst = more.flatMap Piece.text) :
    ∃ middle, fillAligned source options
        ((Cursor.mk (before.length + passed.length) (offset + bytes (concatText passed))
          ((first :: later).map Run.text)).alignAll
          (Occurrence.among (offset + bytes (front ++ gap.map Prod.fst) + bytes key) more)).reverse
        ⟨before ++ run :: rest⟩ {} =
        .done middle (source.outcomeOf (more.filterMap Piece.placeholder?)) ∧
      Awaits before run.style front gap written (source.restyled options more behind) alignment
        middle := by
  rw [runs, styled_append, styled_cons, inside, inStyle_append, inStyle_append] at whole
  have parts : (inStyle run.style front ++ gap) ++ (written ++ behind) =
      (styled passed ++ inStyle first.style head) ++
        (inStyle first.style key ++ (inStyle first.style tail ++ styled later)) := by
    rw [← whole]
    simp
  obtain ⟨started, others⟩ := styled_inj parts (by simp [start])
  obtain ⟨rfl, rfl⟩ := styled_inj others (by rw [same, map_fst_inStyle])
  have place : offset + bytes (front ++ gap.map Prod.fst) + bytes key =
      offset + bytes (concatText passed) + bytes (head ++ key ++ []) := by
    rw [start, List.append_nil, bytes_append, bytes_append]
    omega
  obtain ⟨middle, ran, stands⟩ := fills (before ++ passed) later first
    (offset + bytes (concatText passed)) (head ++ key) tail [] _ (by simp [inside]) chars inside
  rw [List.length_append, List.map_nil, ← place, List.append_assoc, ← runs] at ran
  exact ⟨middle, ran, .within goes runs text started covers stands⟩

/-- Behind a placeholder that several runs hold, the walk goes on in the last of them. -/
theorem Fills.across {inner : List Span} (fills : Fills source options more)
    (opens : opening ≠ []) (runs : run :: rest = passed ++ first :: (between ++ last :: later))
    (text : run.text.toList = front ++ back)
    (start : front ++ gap.map Prod.fst = concatText passed ++ head)
    (spelled : key = opening ++ concatText between ++ closing)
    (textFirst : first.text.toList = head ++ opening) (textLast : last.text.toList = closing ++ tail)
    (covers : alignment.spans = ⟨before.length + passed.length, bytes head, bytes opening⟩ ::
      (inner ++ [⟨before.length + passed.length + 1 + between.length, 0, bytes closing⟩]))
    (whole : styled (run :: rest) = inStyle run.style front ++ gap ++ (written ++ behind))
    (same : written.map Prod.fst = key) (chars : behind.map Prod.fst = more.flatMap Piece.text) :
    ∃ middle, fillAligned source options
        ((Cursor.mk (before.length + passed.length + 1 + between.length)
          (offset + bytes (concatText (passed ++ first :: between)))
          ((last :: later).map Run.text)).alignAll
          (Occurrence.among (offset + bytes (front ++ gap.map Prod.fst) + bytes key) more)).reverse
        ⟨before ++ run :: rest⟩ {} =
        .done middle (source.outcomeOf (more.filterMap Piece.placeholder?)) ∧
      Awaits before run.style front gap written (source.restyled options more behind) alignment
        middle := by
  rw [runs, styled_append, styled_cons, styled_append, styled_cons, textFirst, textLast,
    inStyle_append, inStyle_append] at whole
  have parts : (inStyle run.style front ++ gap) ++ (written ++ behind) =
      (styled passed ++ inStyle first.style head) ++
        ((inStyle first.style opening ++ (styled between ++ inStyle last.style closing)) ++
          (inStyle last.style tail ++ styled later)) := by
    rw [← whole]
    simp
  obtain ⟨started, others⟩ := styled_inj parts (by simp [start])
  obtain ⟨rfl, rfl⟩ := styled_inj others (by rw [same]; simp [spelled])
  have place : offset + bytes (front ++ gap.map Prod.fst) + bytes key =
      offset + bytes (concatText (passed ++ first :: between)) + bytes (closing ++ []) := by
    rw [start, spelled, List.append_nil, concatText_append, concatText_cons, textFirst]
    simp only [bytes_append]
    omega
  have index : (before ++ (passed ++ first :: between)).length =
      before.length + passed.length + 1 + between.length := by
    simp only [List.length_append, List.length_cons]
    omega
  have rejoined : before ++ (passed ++ first :: between) ++ last :: later =
      before ++ run :: rest := by
    rw [runs, List.append_assoc, List.append_assoc, List.cons_append]
  obtain ⟨middle, ran, stands⟩ := fills (before ++ (passed ++ first :: between)) later last
    (offset + bytes (concatText (passed ++ first :: between))) closing tail [] _
    (by simp [textLast]) chars textLast
  rw [index, List.map_nil, ← place, rejoined] at ran
  rw [← List.append_assoc] at stands
  exact ⟨middle, ran, .across opens runs text started textFirst covers stands⟩

end later

theorem Fills.placeholder {more : List Piece} {p : Placeholder}
    (fills : Fills source options more) (good : p.WellFormed) (kind : p.kind = .scalar) :
    Fills source options (.placeholder p :: more) := by
  intro before rest run offset front back gap here whole same text
  rw [List.flatMap_cons, List.map_eq_append_iff] at same
  obtain ⟨written, behind, rfl, key, later⟩ := same
  have chars : concat ((run :: rest).map Run.text) =
      front ++ gap.map Prod.fst ++ (p.text ++ more.flatMap Piece.text) := by
    change concatText (run :: rest) = _
    rw [← map_fst_styled, whole]
    simp [key, later, Piece.text]
  have lies := LiesIn.of_lies
    (@Cursor.finds_of_text before.length offset _ _ _ _ p.text_ne_nil chars)
  rw [Occurrence.among, Cursor.alignAll, Source.restyled_placeholder source options more behind key]
  dsimp only [Occurrence.stop]
  generalize Cursor.cover _ _ _ _ _ = covered at lies ⊢
  obtain ⟨spans, cursor⟩ := covered
  generalize aligned : Alignment.mk _ _ _ _ = alignment
  have named : alignment.key = String.ofList p.text := by rw [← aligned]
  have spanned : alignment.spans = spans := by rw [← aligned]
  cases lies with
  | within passed later' first head tail runs start inside covers stays =>
      obtain ⟨middle, ran, awaits⟩ :=
        fills.within p.text_ne_nil runs text start inside (spanned.trans covers) whole key later
      dsimp only at stays
      rw [stays]
      exact fillAligned_cons good kind named ran awaits
  | across passed between later' first last head opening closing tail runs start covered
      textFirst textLast opens closes covers stays =>
      rw [List.append_assoc, List.cons_append] at runs
      obtain ⟨middle, ran, awaits⟩ :=
        fills.across opens runs text start covered textFirst textLast (spanned.trans covers) whole
          key later
      rw [stays]
      exact fillAligned_cons good kind named ran awaits

theorem fills (source : Source) (options : FillOptions) {found : List Piece}
    (good : ∀ p, .placeholder p ∈ found → p.kind = .scalar ∧ p.WellFormed) :
    Fills source options found := by
  induction found with
  | nil => exact .nil
  | cons piece more ih =>
      have others := ih fun p member => good p (List.mem_cons_of_mem _ member)
      cases piece with
      | plain c => exact others.plain c
      | placeholder p =>
          obtain ⟨kind, wellFormed⟩ := good p (List.mem_cons_self ..)
          exact others.placeholder wellFormed kind

theorem fillAligned_align (source : Source) (options : FillOptions) {p : Paragraph}
    (nonempty : p.runs ≠ []) :
    ∃ filled, fillAligned source options (align .scalar p.fragments).reverse p {} =
      .done filled (source.outcomeOf (placeholdersOf .scalar p.text)) ∧
        filled.styledText =
          source.restyled options (pieces .scalar p.text.toList) p.styledText := by
  obtain ⟨run, rest, shape⟩ := List.exists_cons_of_ne_nil nonempty
  have all : Fills source options (pieces .scalar p.text.toList) :=
    fills source options fun q member => wellFormed_of_mem_pieces member
  have chars : p.styledText.map Prod.fst = (pieces .scalar p.text.toList).flatMap Piece.text := by
    rw [map_fst_styledText, flatMap_text_pieces]
  obtain ⟨filled, ran, stands⟩ := all [] rest run 0 [] run.text.toList [] p.styledText
    (by rw [styledText_eq, shape]; rfl) chars rfl
  refine ⟨filled, ?_, stands.styledText⟩
  have same : align .scalar p.fragments =
      (Cursor.mk 0 0 ((run :: rest).map Run.text)).alignAll (occurrences .scalar p.text) := by
    rw [align, ofList_fragments, fragments, shape]
    rfl
  rw [same]
  obtain ⟨runs⟩ := p
  cases shape
  exact ran

theorem collapse_cons (run : Run) (rest : List Run) (text : String) :
    collapse ⟨run :: rest⟩ text = ⟨[{ run with text }]⟩ := by
  have others : removeRuns ⟨[run] ++ (rest ++ [])⟩ (List.range' 1 rest.length) = ⟨[run] ++ []⟩ :=
    removeRuns_between
  rw [List.append_nil, List.singleton_append] at others
  rw [collapse, List.length_cons, Nat.add_sub_cancel, others]
  rfl

/-- What filling the scalars of a paragraph makes of it. A paragraph that is one placeholder takes
the value in its first run, in any other the values take the place of their placeholders. -/
inductive ScalarFill (source : Source) (options : FillOptions) (p : Paragraph) : Paragraph → Prop
  | whole (placeholder : Placeholder) (found : Resolved) (run : Run) (rest : List Run)
      (good : placeholder.WellFormed) (kind : placeholder.kind = .scalar)
      (text : p.text = String.ofList placeholder.text)
      (resolves : source.get? placeholder.path = some found) (runs : p.runs = run :: rest) :
      ScalarFill source options p ⟨[{ run with text := found.render options }]⟩
  | spliced (filled : Paragraph)
      (several : ∀ placeholder : Placeholder, placeholder.WellFormed → placeholder.kind = .scalar →
        p.text = String.ofList placeholder.text → source.get? placeholder.path = none)
      (styled : filled.styledText =
        source.restyled options (pieces .scalar p.text.toList) p.styledText) :
      ScalarFill source options p filled

theorem runs_ne_nil_of_hasPlaceholder {p : Paragraph}
    (found : hasPlaceholder .scalar p.text = true) : p.runs ≠ [] := by
  intro empty
  have blank : p.text = "" := by
    apply String.toList_inj.1
    rw [toList_text, empty]
    rfl
  rw [blank, hasPlaceholder_of_not_mem (by simp)] at found
  cases found

/-- A paragraph in which nothing resolves stays as it is. -/
theorem ScalarFill.unchanged {p : Paragraph}
    (absent : ∀ q ∈ placeholdersOf .scalar p.text, source.get? q.path = none) :
    ScalarFill source options p p := by
  apply spliced
  · intro placeholder good kind text
    apply absent
    rw [text, ← kind, placeholdersOf_text good]
    exact List.mem_singleton_self _
  · rw [Source.restyled_of_none]
    · intro q member
      exact absent q (List.mem_filterMap.2 ⟨_, member, rfl⟩)
    · rw [map_fst_styledText, flatMap_text_pieces]

/-- Filling the scalars of a paragraph fails nowhere and reports each of them, however its text is
cut into runs. -/
theorem fillScalars_done (source : Source) (options : FillOptions) (p : Paragraph) :
    ∃ filled, p.fillScalars source options =
      .done filled (source.outcomeOf (placeholdersOf .scalar p.text)) ∧
        ScalarFill source options p filled := by
  unfold fillScalars
  dsimp only
  rw [isMatch_classify]
  by_cases none : hasPlaceholder .scalar p.text = false
  · have nothing := placeholdersOf_eq_nil_iff.2 none
    rw [none, nothing]
    refine ⟨p, rfl, .unchanged ?_⟩
    rw [nothing]
    exact fun q member => by cases member
  rw [Bool.not_eq_false] at none
  have nonempty := runs_ne_nil_of_hasPlaceholder none
  rw [none, Bool.not_true, if_neg Bool.false_ne_true]
  by_cases single : (classify .scalar p.text).isSinglePlaceholder = true
  · rw [if_pos single]
    obtain ⟨placeholder, kind, good, whole⟩ := exists_of_isSinglePlaceholder single
    have only : placeholdersOf .scalar p.text = [placeholder] := by
      rw [whole, ← kind, placeholdersOf_text good]
    rw [only, whole, scalarPath?_of_kind good kind, Option.map_some, ← whole]
    cases found : source.get? placeholder.path with
    | none =>
        rw [Source.outcomeOf_cons_of_none found]
        refine ⟨p, by rw [whole]; rfl, .unchanged ?_⟩
        intro q member
        rw [only, List.mem_singleton] at member
        rw [member, found]
    | some value =>
        obtain ⟨run, rest, runs⟩ := List.exists_cons_of_ne_nil nonempty
        rw [Source.outcomeOf_cons_of_some found]
        refine ⟨_, rfl, ?_⟩
        obtain ⟨_⟩ := p
        cases runs
        rw [collapse_cons]
        exact .whole placeholder value run rest good kind whole found rfl
  · rw [if_neg single]
    obtain ⟨filled, ran, styled⟩ := fillAligned_align source options nonempty
    refine ⟨filled, ran, .spliced filled ?_ styled⟩
    intro placeholder good kind text
    have is := isSinglePlaceholder_text good
    rw [kind, ← text] at is
    exact absurd is single

end Paragraph

end Stencil
