import Stencil.Attempt
import Stencil.Paragraph.Alignment
import Stencil.Paragraph.Basic

/-! Exchanging aligned text for a replacement. In one run it is exchanged in place. Over several
runs the first keeps what is before it and takes the replacement, the last keeps what is behind
it, and the runs between them go, as does the last where nothing is left of it. -/

namespace Stencil.Paragraph

private def fail (p : Paragraph) (fragment : Nat) : FillError :=
  .fragmentOutOfRange fragment p.runs.length

private def readRun (p : Paragraph) (fragment : Nat) : Except FillError String :=
  match p.runText? fragment with
  | some text => .ok text
  | none => .error (p.fail fragment)

/-- The text of a run before a byte offset. -/
private def textBefore (p : Paragraph) (fragment offset : Nat) : Except FillError String := do
  let text ← p.readRun fragment
  match Text.cut? offset text.toList with
  | some (front, _) => .ok (String.ofList front)
  | none => .error (p.fail fragment)

/-- The text of a run from a byte offset on. -/
private def textBehind (p : Paragraph) (fragment offset : Nat) : Except FillError String := do
  let text ← p.readRun fragment
  match Text.cut? offset text.toList with
  | some (_, back) => .ok (String.ofList back)
  | none => .error (p.fail fragment)

/-- Where a span ends in its run. The sum is a machine word: beyond the text, which is never as long
as the words reach, it begins from zero again. -/
def stopOf (p : Paragraph) (span : Span) : Nat :=
  let stop := span.start + span.length
  if stop ≤ Text.bytes ((p.runText? span.fragment).getD "").toList then stop
  else stop % UInt64.size

/-- Remove runs from the last index down to the first. -/
def removeRuns (p : Paragraph) (indices : List Nat) : Paragraph :=
  indices.foldr (fun index p => p.removeRun index) p

def splice (p : Paragraph) (alignment : Alignment) (replacement : String) :
    Attempt Paragraph Unit :=
  match alignment.spans with
  | [] => .done p ()
  | [only] =>
      match p.textBefore only.fragment only.start,
          p.textBehind only.fragment (p.stopOf only) with
      | .error e, _ => .stop p e
      | .ok _, .error e => .stop p e
      | .ok before, .ok behind =>
          .done (p.setRunText only.fragment (before ++ replacement ++ behind)) ()
  | head :: next :: rest =>
      let tail := (next :: rest).getLast (by simp)
      match p.textBefore head.fragment head.start,
          p.textBehind tail.fragment (p.stopOf tail) with
      | .error e, _ => .stop p e
      | .ok _, .error e => .stop p e
      | .ok before, .ok behind =>
          let replaced := p.setRunText head.fragment (before ++ replacement)
          let trimmed :=
            if behind = "" then replaced.removeRun tail.fragment
            else replaced.setRunText tail.fragment behind
          let between := List.range' (head.fragment + 1) (tail.fragment - (head.fragment + 1))
          .done (trimmed.removeRuns between) ()

/-! ### What splicing can come to -/

/-- A run whose text can be cut at a byte offset. -/
def Cuts (p : Paragraph) (fragment offset : Nat) : Prop :=
  ∃ run front back, p.runs[fragment]? = some run ∧ run.text.toList = front ++ back ∧
    Text.bytes front = offset

private theorem cut?_eq_none_of_not_cuts {p : Paragraph} {fragment offset : Nat} {run : Run}
    (at_ : p.runs[fragment]? = some run) (uncut : ¬ p.Cuts fragment offset) :
    Text.cut? offset run.text.toList = none := by
  cases cut : Text.cut? offset run.text.toList with
  | none => rfl
  | some parts =>
      obtain ⟨joined, size⟩ := Text.append_of_cut? cut
      exact absurd ⟨run, parts.1, parts.2, at_, joined.symm, size⟩ uncut

/-- The texts before and behind an offset can be read together or not at all. -/
private theorem reading_cases (p : Paragraph) (fragment offset : Nat) :
    (p.Cuts fragment offset ∧ ∃ before behind, p.textBefore fragment offset = .ok before ∧
        p.textBehind fragment offset = .ok behind) ∨
      (¬ p.Cuts fragment offset ∧ p.textBefore fragment offset = .error (p.fail fragment) ∧
        p.textBehind fragment offset = .error (p.fail fragment)) := by
  unfold textBefore textBehind readRun runText?
  by_cases cuts : p.Cuts fragment offset
  · obtain ⟨run, front, back, at_, text, rfl⟩ := cuts
    refine .inl ⟨⟨run, front, back, at_, text, rfl⟩, String.ofList front, String.ofList back, ?_⟩
    simp [at_, text, Text.cut?_bytes, bind, Except.bind]
  · refine .inr ⟨cuts, ?_⟩
    cases at_ : p.runs[fragment]? with
    | none => exact ⟨rfl, rfl⟩
    | some run => simp [cut?_eq_none_of_not_cuts at_ cuts, bind, Except.bind]

/-- All that splicing can come to. It stops with the paragraph as it was where the first run cannot
be cut at the beginning of the alignment or the last one not at its end. No other runs are looked
at. -/
inductive Splicing (p : Paragraph) (alignment : Alignment) : Attempt Paragraph Unit → Prop
  | nothing (empty : alignment.spans = []) : Splicing p alignment (.done p ())
  | exchanged (first last : Span) (spliced : Paragraph)
      (opens : alignment.spans.head? = some first) (closes : alignment.spans.getLast? = some last)
      (cutsFirst : p.Cuts first.fragment first.start)
      (cutsLast : p.Cuts last.fragment (p.stopOf last)) :
      Splicing p alignment (.done spliced ())
  | refusedFirst (first last : Span)
      (opens : alignment.spans.head? = some first) (closes : alignment.spans.getLast? = some last)
      (uncut : ¬ p.Cuts first.fragment first.start) :
      Splicing p alignment (.stop p (.fragmentOutOfRange first.fragment p.runs.length))
  | refusedLast (first last : Span)
      (opens : alignment.spans.head? = some first) (closes : alignment.spans.getLast? = some last)
      (cutsFirst : p.Cuts first.fragment first.start)
      (uncut : ¬ p.Cuts last.fragment (p.stopOf last)) :
      Splicing p alignment (.stop p (.fragmentOutOfRange last.fragment p.runs.length))

theorem splice_splicing (p : Paragraph) (alignment : Alignment) (replacement : String) :
    Splicing p alignment (p.splice alignment replacement) := by
  unfold splice
  split
  · rename_i empty
    exact .nothing empty
  · rename_i only spans
    have opens : alignment.spans.head? = some only := by rw [spans]; rfl
    have closes : alignment.spans.getLast? = some only := by rw [spans]; rfl
    rcases p.reading_cases only.fragment only.start with
      ⟨cuts, before, -, ok, -⟩ | ⟨uncut, failed, -⟩
    · rcases p.reading_cases only.fragment (p.stopOf only) with
        ⟨cuts', -, behind, -, ok'⟩ | ⟨uncut, -, failed⟩
      · rw [ok, ok']
        exact .exchanged only only _ opens closes cuts cuts'
      · rw [ok, failed]
        exact .refusedLast only only opens closes cuts uncut
    · rw [failed]
      exact .refusedFirst only only opens closes uncut
  · rename_i first next rest spans
    dsimp only
    generalize last_ : (next :: rest).getLast _ = last
    have opens : alignment.spans.head? = some first := by rw [spans]; rfl
    have closes : alignment.spans.getLast? = some last := by
      rw [spans, List.getLast?_cons_cons, List.getLast?_eq_some_getLast (by simp), last_]
    rcases p.reading_cases first.fragment first.start with
      ⟨cuts, before, -, ok, -⟩ | ⟨uncut, failed, -⟩
    · rcases p.reading_cases last.fragment (p.stopOf last) with
        ⟨cuts', -, behind, -, ok'⟩ | ⟨uncut, -, failed⟩
      · rw [ok, ok']
        exact .exchanged first last _ opens closes cuts cuts'
      · rw [ok, failed]
        exact .refusedLast first last opens closes cuts uncut
    · rw [failed]
      exact .refusedFirst first last opens closes uncut

/-! ### Splices of stretches that lie in the runs -/

section splice

variable {before between rest : List Run} {run first last : Run}
  {front key behind head opening closing : List Char}

private theorem textBefore_at (text : run.text.toList = front ++ behind) :
    textBefore ⟨before ++ run :: rest⟩ before.length (Text.bytes front) =
      .ok (String.ofList front) := by
  simp [textBefore, readRun, runText?, text, Text.cut?_bytes, bind, Except.bind]

private theorem textBehind_at (text : run.text.toList = front ++ behind) :
    textBehind ⟨before ++ run :: rest⟩ before.length (Text.bytes front) =
      .ok (String.ofList behind) := by
  simp [textBehind, readRun, runText?, text, Text.cut?_bytes, bind, Except.bind]

/-- A span within a run ends where it says. -/
private theorem stopOf_at {span : Span} (place : span.fragment = before.length)
    (text : run.text.toList = front ++ behind)
    (size : span.start + span.length = Text.bytes front) :
    stopOf ⟨before ++ run :: rest⟩ span = Text.bytes front := by
  have inside : Text.bytes front ≤ Text.bytes run.text.toList := by
    rw [text, Text.bytes_append]
    exact Nat.le_add_right ..
  simp [stopOf, runText?, place, size, inside]

theorem setRunText_at (text : String) :
    setRunText ⟨before ++ run :: rest⟩ before.length text = ⟨before ++ { run with text } :: rest⟩ := by
  simp [setRunText, List.modify_eq_take_drop]

theorem removeRun_at :
    removeRun ⟨before ++ run :: rest⟩ before.length = ⟨before ++ rest⟩ := by
  simp [removeRun, List.eraseIdx_append_of_length_le]

theorem removeRuns_between :
    removeRuns ⟨before ++ (between ++ rest)⟩ (List.range' before.length between.length) =
      ⟨before ++ rest⟩ := by
  induction between generalizing before with
  | nil => rfl
  | cons run more ih =>
      have later := @ih (before ++ [run])
      rw [List.length_append, List.length_singleton, List.append_assoc, List.append_assoc,
        List.singleton_append] at later
      rw [List.length_cons, List.range'_succ, removeRuns, List.foldr_cons, List.cons_append]
      exact (congrArg (removeRun · before.length) later).trans removeRun_at

/-- A stretch within one run is exchanged in place. -/
theorem splice_within {alignment : Alignment} (replacement : String)
    (text : run.text.toList = front ++ key ++ behind)
    (spans : alignment.spans = [⟨before.length, Text.bytes front, Text.bytes key⟩]) :
    splice ⟨before ++ run :: rest⟩ alignment replacement =
      .done ⟨before ++
        { run with text := String.ofList front ++ replacement ++ String.ofList behind } ::
          rest⟩ () := by
  have cutBefore : textBefore ⟨before ++ run :: rest⟩ before.length (Text.bytes front) =
      .ok (String.ofList front) := textBefore_at (text.trans (List.append_assoc ..))
  have cutBehind : textBehind ⟨before ++ run :: rest⟩ before.length
      (Text.bytes (front ++ key)) = .ok (String.ofList behind) := textBehind_at text
  have stop : stopOf ⟨before ++ run :: rest⟩ ⟨before.length, Text.bytes front, Text.bytes key⟩ =
      Text.bytes (front ++ key) := stopOf_at rfl text (Text.bytes_append ..).symm
  simp only [splice, spans, stop, cutBefore, cutBehind, setRunText_at]

/-- A stretch across several runs leaves the replacement in the first of them and what is behind
it in the last, which goes if that is nothing. -/
theorem splice_across {alignment : Alignment} {inner : List Span} {index size : Nat}
    (replacement : String)
    (textFirst : first.text.toList = head ++ opening)
    (textLast : last.text.toList = closing ++ behind)
    (place : index = before.length + 1 + between.length)
    (spans : alignment.spans = ⟨before.length, Text.bytes head, size⟩ ::
      (inner ++ [⟨index, 0, Text.bytes closing⟩])) :
    splice ⟨before ++ first :: between ++ last :: rest⟩ alignment replacement =
      .done ⟨before ++ { first with text := String.ofList head ++ replacement } ::
        if behind = [] then rest
        else { last with text := String.ofList behind } :: rest⟩ () := by
  have count : (before ++ first :: between).length = index := by
    rw [place, List.length_append, List.length_cons]
    omega
  have cutFirst : textBefore ⟨before ++ first :: between ++ last :: rest⟩ before.length
      (Text.bytes head) = .ok (String.ofList head) := by
    rw [List.append_assoc, List.cons_append]
    exact textBefore_at textFirst
  have cutLast : textBehind ⟨before ++ first :: between ++ last :: rest⟩ index
      (Text.bytes closing) = .ok (String.ofList behind) := by
    rw [← count]
    exact textBehind_at textLast
  have stop : stopOf ⟨before ++ first :: between ++ last :: rest⟩ ⟨index, 0, Text.bytes closing⟩ =
      Text.bytes closing := stopOf_at count.symm textLast (Nat.zero_add _)
  obtain ⟨next, more, shape⟩ := List.exists_cons_of_ne_nil
    (List.append_ne_nil_of_right_ne_nil inner (List.cons_ne_nil ⟨index, 0, Text.bytes closing⟩ []))
  have tail : (next :: more).getLast (List.cons_ne_nil _ _) = ⟨index, 0, Text.bytes closing⟩ := by
    simp only [← shape, List.getLast_concat]
  have replaced (text : String) :
      setRunText ⟨before ++ first :: between ++ last :: rest⟩ before.length text =
        ⟨before ++ { first with text } :: between ++ last :: rest⟩ := by
    rw [List.append_assoc, List.cons_append, setRunText_at, List.append_assoc, List.cons_append]
  have inBetween (text : String) (rest : List Run) :
      removeRuns ⟨before ++ { first with text } :: between ++ rest⟩
        (List.range' (before.length + 1) (index - (before.length + 1))) =
          ⟨before ++ { first with text } :: rest⟩ := by
    have gone := @removeRuns_between (before ++ [{ first with text }]) between rest
    rw [List.length_append, List.length_singleton] at gone
    rw [place, Nat.add_sub_cancel_left]
    simpa using gone
  have trimmed (text : String) :
      removeRuns
        (if String.ofList behind = "" then
          removeRun ⟨before ++ { first with text } :: between ++ last :: rest⟩ index
        else setRunText ⟨before ++ { first with text } :: between ++ last :: rest⟩ index
          (String.ofList behind))
        (List.range' (before.length + 1) (index - (before.length + 1))) =
      ⟨before ++ { first with text } ::
        if behind = [] then rest
        else { last with text := String.ofList behind } :: rest⟩ := by
    have count : (before ++ { first with text } :: between).length = index := by
      rw [place, List.length_append, List.length_cons]
      omega
    subst count
    rw [removeRun_at, setRunText_at]
    by_cases empty : behind = []
    · rw [if_pos empty, if_pos (by rw [empty]), inBetween]
    · rw [if_neg empty, if_neg (by simpa using empty), inBetween]
  simp only [splice, spans, shape, cutFirst]
  simp only [tail, stop, cutLast, replaced, trimmed]

end splice

end Stencil.Paragraph
