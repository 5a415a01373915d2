import Mathlib
import Stencil.Proofs.Paragraph.Scalars

/-! Splicing an alignment of the paragraph itself exchanges the placeholder and nothing else. An
alignment from elsewhere may be refused, and the paragraph then stays as it was; but only the first
and the last of its spans are looked at, so one with a missing run in between is spliced. -/

namespace Stencil.Paragraph

open Text

/-! ### Alignments of the paragraph -/

/-- How many runs go when the text from one span to another is exchanged: those between the two, and
the one of the last span if it is another one and ends with the span. -/
def removedBy (p : Paragraph) (first last : Span) : Nat :=
  (last.fragment - (first.fragment + 1)) +
    if first.fragment < last.fragment ∧
        (p.runText? last.fragment).map (fun text => bytes text.toList) =
          some (last.start + last.length) then 1
    else 0

/-- What a paragraph is after a replacement has taken the place of what it held from one span to
another. The styled text before and behind them is still there, and the replacement has one style.
Runs before the first span and behind the last one are the same. -/
structure Edited (p : Paragraph) (first last : Span) (front behind : List (Char × UInt32))
    (style : UInt32) (replacement : String) (q : Paragraph) : Prop where
  text : q.text.toList = front.map Prod.fst ++ replacement.toList ++ behind.map Prod.fst
  styled : q.styledText = front ++ inStyle style replacement.toList ++ behind
  around : ∃ touched,
    q.runs = p.runs.take first.fragment ++ touched ++ p.runs.drop (last.fragment + 1)
  count : q.runs.length + p.removedBy first last = p.runs.length

/-- The text follows from the styled text. -/
theorem Edited.of_styled {p q : Paragraph} {first last : Span} {front behind : List (Char × UInt32)}
    {style : UInt32} {replacement : String}
    (styled : q.styledText = front ++ inStyle style replacement.toList ++ behind)
    (around : ∃ touched,
      q.runs = p.runs.take first.fragment ++ touched ++ p.runs.drop (last.fragment + 1))
    (count : q.runs.length + p.removedBy first last = p.runs.length) :
    Edited p first last front behind style replacement q := by
  refine ⟨?_, styled, around, count⟩
  rw [← map_fst_styledText, styled, List.map_append, List.map_append, map_fst_inStyle]

section edited

variable {before between rest : List Run} {run first last : Run}
  {head key behind opening closing : List Char}

/-- An exchange within one run. -/
theorem edited_within (replacement : String) :
    Edited ⟨before ++ run :: rest⟩ ⟨before.length, bytes head, bytes key⟩
      ⟨before.length, bytes head, bytes key⟩ (styled before ++ inStyle run.style head)
      (inStyle run.style behind ++ styled rest) run.style replacement
      ⟨before ++
        { run with text := String.ofList head ++ replacement ++ String.ofList behind } :: rest⟩ := by
  apply Edited.of_styled
  · simp [styledText_eq]
  · refine ⟨[{ run with text := String.ofList head ++ replacement ++ String.ofList behind }], ?_⟩
    simp
  · simp [removedBy]

theorem removedBy_across {index size start : Nat} (textLast : last.text.toList = closing ++ behind)
    (place : index = before.length + 1 + between.length) :
    removedBy ⟨before ++ first :: between ++ last :: rest⟩ ⟨before.length, start, size⟩
        ⟨index, 0, bytes closing⟩ =
      between.length + if behind = [] then 1 else 0 := by
  have at_ : (before ++ first :: between ++ last :: rest)[index]? = some last := by
    have count : (before ++ first :: between).length = index := by
      rw [place, List.length_append, List.length_cons]
      omega
    simp [← count]
  have ends : bytes (closing ++ behind) = 0 + bytes closing ↔ behind = [] := by
    rw [bytes_append, Nat.zero_add, Nat.add_eq_left, bytes_eq_zero_iff]
  have apart : before.length < index := by omega
  rw [removedBy, runText?, at_]
  simp only [Option.map_some, textLast, apart, true_and, Option.some.injEq, ends]
  omega

/-- An exchange across several runs, of which the last goes if nothing is left of it. -/
theorem edited_across {index size : Nat} (replacement : String)
    (textLast : last.text.toList = closing ++ behind)
    (place : index = before.length + 1 + between.length) :
    Edited ⟨before ++ first :: between ++ last :: rest⟩ ⟨before.length, bytes head, size⟩
      ⟨index, 0, bytes closing⟩ (styled before ++ inStyle first.style head)
      (inStyle last.style behind ++ styled rest) first.style replacement
      ⟨before ++ { first with text := String.ofList head ++ replacement } ::
        if behind = [] then rest
        else { last with text := String.ofList behind } :: rest⟩ := by
  have left : (before ++ first :: between ++ last :: rest).take before.length = before := by
    rw [List.append_assoc, List.take_left]
  have right : (before ++ first :: between ++ last :: rest).drop (index + 1) = rest := by
    have shape : before ++ first :: between ++ last :: rest =
        (before ++ first :: between ++ [last]) ++ rest := by simp
    have count : (before ++ first :: between ++ [last]).length = index + 1 := by
      simp only [List.length_append, List.length_cons, List.length_nil]
      omega
    rw [shape, ← count, List.drop_left]
  apply Edited.of_styled
  · by_cases empty : behind = [] <;> simp [styledText_eq, empty]
  · rw [left, right]
    by_cases empty : behind = []
    · exact ⟨[{ first with text := String.ofList head ++ replacement }], by simp [empty]⟩
    · refine ⟨[{ first with text := String.ofList head ++ replacement },
        { last with text := String.ofList behind }], ?_⟩
      simp [empty]
  · rw [removedBy_across textLast place]
    by_cases empty : behind = [] <;> simp [empty] <;> omega

end edited

/-- A stretch of the styled text of a paragraph that an alignment speaks of: the alignment has its
characters as the key and its place as the range. -/
structure Marks (p : Paragraph) (a : Alignment) (front key behind : List (Char × UInt32)) :
    Prop where
  split : p.styledText = front ++ key ++ behind
  chars : key.map Prod.fst = a.key.toList
  start : a.start = bytes (front.map Prod.fst)
  stop : a.stop = bytes ((front ++ key).map Prod.fst)

theorem Marks.of_split {p : Paragraph} {a : Alignment} {front key behind : List (Char × UInt32)}
    {before chars : List Char} (written : a.key = String.ofList chars)
    (start : a.start = bytes before) (stop : a.stop = a.start + bytes chars)
    (split : p.styledText = front ++ key ++ behind) (ahead : front.map Prod.fst = before)
    (same : key.map Prod.fst = chars) : p.Marks a front key behind := by
  refine ⟨split, ?_, ?_, ?_⟩
  · rw [same, written, String.toList_ofList]
  · rw [start, ahead]
  · rw [stop, start, List.map_append, ahead, same, bytes_append]

/-- Splicing an alignment of the paragraph does not fail. The replacement takes the place of the
placeholder, in the style of the run in which the placeholder begins. The text before and behind it
keeps its styles, runs that it does not touch stay as they are, and there are fewer runs only by
those between the first and the last one that it touches, and by the last one where nothing is left
of it. -/
theorem splice_edits {kind : PlaceholderKind} {p : Paragraph} {a : Alignment}
    (aligned : a ∈ align kind p.fragments) (replacement : String) :
    ∃ (first last : Span) (run : Run) (front key behind : List (Char × UInt32)) (q : Paragraph),
      a.spans.head? = some first ∧ a.spans.getLast? = some last ∧
        p.runs[first.fragment]? = some run ∧ p.Marks a front key behind ∧
        p.splice a replacement = .done q () ∧
        Edited p first last front behind run.style replacement q := by
  obtain ⟨placeholder, text, cursor, written, start, stop, lies⟩ := lies_of_mem_align aligned
  obtain ⟨runs⟩ := p
  have inRuns : LiesIn 0 0 runs text placeholder.text a.spans cursor := .of_lies lies
  cases inRuns with
  | within passed later run head behind split begins inside covers stays =>
      subst split
      rw [Nat.zero_add] at covers
      refine ⟨⟨passed.length, bytes head, bytes placeholder.text⟩,
        ⟨passed.length, bytes head, bytes placeholder.text⟩, run, _,
        inStyle run.style placeholder.text, _, _, ?_, ?_, ?_, ?_,
        splice_within replacement inside covers, edited_within replacement⟩
      · rw [covers]
        rfl
      · rw [covers]
        rfl
      · simp
      · apply Marks.of_split written start stop
        · simp [styledText_eq, inside]
        · rw [begins, List.map_append, map_fst_styled, map_fst_inStyle]
        · exact map_fst_inStyle ..
  | across passed inner later run run' head opening closing behind split begins covered
      textFirst textLast opens closes covers stays =>
      subst split
      rw [Nat.zero_add] at covers
      refine ⟨⟨passed.length, bytes head, bytes opening⟩,
        ⟨passed.length + 1 + inner.length, 0, bytes closing⟩, run, _,
        inStyle run.style opening ++ (styled inner ++ inStyle run'.style closing), _, _, ?_, ?_, ?_,
        ?_, splice_across replacement textFirst textLast rfl covers,
        edited_across replacement textLast rfl⟩
      · rw [covers]
        rfl
      · rw [covers, ← List.cons_append, List.getLast?_concat]
      · simp
      · apply Marks.of_split written start stop
        · simp [styledText_eq, textFirst, textLast]
        · rw [begins, List.map_append, map_fst_styled, map_fst_inStyle]
        · simp [covered]

/-- A salutation whose name begins in one run and ends with the run that is the third behind it, with
an empty run in between. -/
def salutation : Paragraph :=
  ⟨[⟨"Dear \x7bNa", 1⟩, ⟨"", 2⟩, ⟨"m", 3⟩, ⟨"e\x7d", 4⟩, ⟨"!", 5⟩]⟩

def nameOfSalutation : Alignment := ⟨"{Name}", 5, 11, [⟨0, 5, 3⟩, ⟨2, 0, 1⟩, ⟨3, 0, 2⟩]⟩

/-- The name takes the style of the first run, and the three runs behind it are gone. -/
theorem salutation_edited :
    nameOfSalutation ∈ align .scalar salutation.fragments ∧
      ∃ front key behind, salutation.Marks nameOfSalutation front key behind ∧
        salutation.splice nameOfSalutation "Ada" =
          .done ⟨[⟨"Dear Ada", 1⟩, ⟨"!", 5⟩]⟩ () ∧
        salutation.Edited ⟨0, 5, 3⟩ ⟨3, 0, 2⟩ front behind 1 "Ada"
          ⟨[⟨"Dear Ada", 1⟩, ⟨"!", 5⟩]⟩ := by
  have aligned : align .scalar salutation.fragments = [nameOfSalutation] := by cbv
  have member : nameOfSalutation ∈ align .scalar salutation.fragments := by
    rw [aligned]
    exact .head _
  have spliced : salutation.splice nameOfSalutation "Ada" =
      .done ⟨[⟨"Dear Ada", 1⟩, ⟨"!", 5⟩]⟩ () := by cbv
  obtain ⟨first, last, run, front, key, behind, q, opens, closes, at_, marks, done, edited⟩ :=
    splice_edits member "Ada"
  cases opens
  cases closes
  cases at_
  cases done.symm.trans spliced
  exact ⟨member, front, key, behind, marks, spliced, edited⟩

/-! ### Refused alignments -/

/-- The error that an alignment is refused with: the run of its first span cannot be cut where the
span begins, or else the run of its last span cannot be cut where that ends. -/
def Refuses (p : Paragraph) (a : Alignment) (error : FillError) : Prop :=
  ∃ first last, a.spans.head? = some first ∧ a.spans.getLast? = some last ∧
    (¬ p.Cuts first.fragment first.start ∧
        error = .fragmentOutOfRange first.fragment p.runs.length ∨
      p.Cuts first.fragment first.start ∧ ¬ p.Cuts last.fragment (p.stopOf last) ∧
        error = .fragmentOutOfRange last.fragment p.runs.length)

theorem not_cuts_of_missing {p : Paragraph} {fragment : Nat} (missing : p.runs[fragment]? = none)
    (offset : Nat) : ¬ p.Cuts fragment offset := by
  rintro ⟨run, front, back, at_, -, -⟩
  cases missing.symm.trans at_

theorem result_splice_eq_error_iff (p : Paragraph) (a : Alignment) (replacement : String)
    (error : FillError) :
    (p.splice a replacement).result = .error error ↔ p.Refuses a error := by
  have splicing := splice_splicing p a replacement
  generalize p.splice a replacement = attempt at splicing ⊢
  cases splicing with
  | nothing empty =>
      refine ⟨fun failed => (nomatch failed), ?_⟩
      rintro ⟨first, last, opens, -⟩
      rw [empty] at opens
      cases opens
  | exchanged first last spliced opens closes cutsFirst cutsLast =>
      refine ⟨fun failed => (nomatch failed), ?_⟩
      rintro ⟨first', last', opens', closes', refused⟩
      cases opens.symm.trans opens'
      cases closes.symm.trans closes'
      rcases refused with ⟨uncut, -⟩ | ⟨-, uncut, -⟩
      · exact absurd cutsFirst uncut
      · exact absurd cutsLast uncut
  | refusedFirst first last opens closes uncut =>
      constructor
      · intro failed
        cases failed
        exact ⟨first, last, opens, closes, .inl ⟨uncut, rfl⟩⟩
      · rintro ⟨first', last', opens', -, refused⟩
        cases opens.symm.trans opens'
        rcases refused with ⟨-, rfl⟩ | ⟨cuts, -⟩
        · rfl
        · exact absurd cuts uncut
  | refusedLast first last opens closes cutsFirst uncut =>
      constructor
      · intro failed
        cases failed
        exact ⟨first, last, opens, closes, .inr ⟨cutsFirst, uncut, rfl⟩⟩
      · rintro ⟨first', last', opens', closes', refused⟩
        cases opens.symm.trans opens'
        cases closes.symm.trans closes'
        rcases refused with ⟨uncut, -⟩ | ⟨-, -, rfl⟩
        · exact absurd cutsFirst uncut
        · rfl

theorem target_splice_of_error {p : Paragraph} {a : Alignment} {replacement : String}
    {error : FillError} (failed : (p.splice a replacement).result = .error error) :
    (p.splice a replacement).target = p := by
  have splicing := splice_splicing p a replacement
  generalize p.splice a replacement = attempt at splicing failed ⊢
  cases splicing with
  | nothing => rfl
  | exchanged => cases failed
  | refusedFirst => rfl
  | refusedLast => rfl

/-- An alignment is refused where the run of its first or of its last span is missing. -/
theorem exists_refuses {p : Paragraph} {a : Alignment} {span : Span}
    (outer : a.spans.head? = some span ∨ a.spans.getLast? = some span)
    (missing : p.runs[span.fragment]? = none) :
    ∃ index, p.Refuses a (.fragmentOutOfRange index p.runs.length) := by
  have nonempty : a.spans ≠ [] := by
    intro empty
    rcases outer with opens | closes
    · rw [empty] at opens
      cases opens
    · rw [empty] at closes
      cases closes
  have opens := List.head?_eq_some_head nonempty
  have closes := List.getLast?_eq_some_getLast nonempty
  by_cases cuts : p.Cuts (a.spans.head nonempty).fragment (a.spans.head nonempty).start
  · refine ⟨_, _, _, opens, closes, .inr ⟨cuts, ?_, rfl⟩⟩
    rcases outer with first | last
    · cases opens.symm.trans first
      exact absurd cuts (not_cuts_of_missing missing _)
    · cases closes.symm.trans last
      exact not_cuts_of_missing missing _
  · exact ⟨_, _, _, opens, closes, .inl ⟨cuts, rfl⟩⟩

/-- An alignment is refused exactly if the run of its first span cannot be cut where the span begins,
or the run of its last span not where that ends, and the paragraph is then as it was. This is so in
particular where one of the two runs is missing. Spans in between are not looked at. -/
theorem splice_refuses (p : Paragraph) (a : Alignment) (replacement : String) :
    (∀ error, (p.splice a replacement).result = .error error ↔ p.Refuses a error) ∧
      (∀ error, (p.splice a replacement).result = .error error →
        (p.splice a replacement).target = p) ∧
      ∀ span, a.spans.head? = some span ∨ a.spans.getLast? = some span →
        p.runs[span.fragment]? = none →
        ∃ index, (p.splice a replacement).result =
          .error (.fragmentOutOfRange index p.runs.length) := by
  refine ⟨result_splice_eq_error_iff p a replacement, fun error => target_splice_of_error, ?_⟩
  intro span outer missing
  obtain ⟨index, refused⟩ := exists_refuses outer missing
  exact ⟨index, (result_splice_eq_error_iff p a replacement _).2 refused⟩

/-- An end that is counted past the last machine word comes to lie in the run again. -/
example : splice ⟨[⟨"ab", 0⟩]⟩ ⟨"b", 1, 2, [⟨0, 1, UInt64.size - 1⟩]⟩ "X" =
    .done ⟨[⟨"aXab", 0⟩]⟩ () := by cbv

/-- A paragraph of two runs, and an alignment from the first to a missing one behind the last. -/
def pair : Paragraph := ⟨[⟨"ab", 1⟩, ⟨"cd", 2⟩]⟩

def pastPair : Alignment := ⟨"bc", 1, 3, [⟨0, 1, 1⟩, ⟨2, 0, 1⟩]⟩

theorem pair_refuses :
    pastPair.spans.getLast? = some ⟨2, 0, 1⟩ ∧ pair.runs[2]? = none ∧
      (∃ index, (pair.splice pastPair "X").result = .error (.fragmentOutOfRange index 2)) ∧
      (pair.splice pastPair "X").target = pair := by
  obtain ⟨-, unchanged, refused⟩ := splice_refuses pair pastPair "X"
  obtain ⟨index, failed⟩ := refused ⟨2, 0, 1⟩ (.inr rfl) rfl
  exact ⟨rfl, rfl, ⟨index, failed⟩, unchanged _ failed⟩

/-- An alignment whose span in the middle is in a missing run. -/
def throughMissing : Alignment := ⟨"ac", 0, 3, [⟨0, 0, 1⟩, ⟨9, 0, 1⟩, ⟨1, 0, 1⟩]⟩

/-- It is spliced all the same. -/
theorem pair_spliced_through_missing :
    (⟨9, 0, 1⟩ : Span) ∈ throughMissing.spans ∧ pair.runs[9]? = none ∧
      pair.splice throughMissing "X" = .done ⟨[⟨"X", 1⟩, ⟨"d", 2⟩]⟩ () := by
  have spliced : pair.splice throughMissing "X" = .done ⟨[⟨"X", 1⟩, ⟨"d", 2⟩]⟩ () := by cbv
  exact ⟨.tail _ (.head _), rfl, spliced⟩

end Stencil.Paragraph
