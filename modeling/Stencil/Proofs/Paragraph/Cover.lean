import Mathlib
import Stencil.Proofs.Paragraph.Alignment

/-! Alignments cover their placeholders exactly. The spans of one go through the fragments in
order, each begins in the joined text where the one before it ends, and together they reach from the
beginning of the placeholder to its end. Between two of them there is only room for empty
fragments. -/

namespace Stencil

open Text

/-- The bytes of the joined text before a fragment. -/
def Text.bytesBefore (fragments : List String) (index : Nat) : Nat :=
  bytes (concat (fragments.take index))

theorem Text.bytesBefore_length (before after : List String) :
    bytesBefore (before ++ after) before.length = bytes (concat before) := by
  rw [bytesBefore, List.take_left]

theorem Text.bytesBefore_succ {fragments : List String} {index : Nat} {fragment : String}
    (at_ : fragments[index]? = some fragment) :
    bytesBefore fragments (index + 1) =
      bytesBefore fragments index + bytes fragment.toList := by
  rw [bytesBefore, List.take_add_one, at_, concat_append, bytes_append]
  simp [bytesBefore]

theorem Text.bytesBefore_mono (fragments : List String) {index later : Nat}
    (le : index ≤ later) : bytesBefore fragments index ≤ bytesBefore fragments later := by
  obtain ⟨more, rfl⟩ := Nat.exists_eq_add_of_le le
  rw [bytesBefore, bytesBefore, List.take_add, concat_append, bytes_append]
  exact Nat.le_add_right ..

namespace Span

/-- Where a span begins in the joined text. -/
def first (fragments : List String) (span : Span) : Nat :=
  bytesBefore fragments span.fragment + span.start

/-- Where a span ends in the joined text. -/
def last (fragments : List String) (span : Span) : Nat := span.first fragments + span.length

/-- A span that covers something of a fragment and does not reach beyond it. -/
def Inside (fragments : List String) (span : Span) : Prop :=
  0 < span.length ∧
    ∃ fragment, fragments[span.fragment]? = some fragment ∧
      span.start + span.length ≤ bytes fragment.toList

/-- Spans that cover the joined text from one offset to another without gap or overlap. -/
def Tile (fragments : List String) (start stop : Nat) : List Span → Prop
  | [] => start = stop
  | span :: rest => span.first fragments = start ∧ Tile fragments (span.last fragments) stop rest

/-- A fragment that is skipped between two spans, of which one begins where the other ends, is
empty. -/
theorem skipped_eq_empty {fragments : List String} {span next : Span} {index : Nat}
    (inside : span.Inside fragments) (insideNext : next.Inside fragments)
    (joins : next.first fragments = span.last fragments) (behind : span.fragment < index)
    (before : index < next.fragment) : fragments[index]? = some "" := by
  obtain ⟨-, fragment, at_, reach⟩ := inside
  obtain ⟨-, other, atNext, -⟩ := insideNext
  have found : index < fragments.length :=
    Nat.lt_trans before (List.getElem?_eq_some_iff.1 atNext).1
  have atIndex : fragments[index]? = some fragments[index] := List.getElem?_eq_getElem found
  have ends := bytesBefore_succ at_
  have grows := bytesBefore_succ atIndex
  have lower : bytesBefore fragments (span.fragment + 1) ≤ bytesBefore fragments index :=
    bytesBefore_mono fragments behind
  have upper : bytesBefore fragments (index + 1) ≤ bytesBefore fragments next.fragment :=
    bytesBefore_mono fragments before
  have nothing : bytes fragments[index].toList = 0 := by
    unfold last first at joins
    omega
  rw [atIndex, String.toList_eq_nil_iff.1 (bytes_eq_zero_iff.1 nothing)]

/-- Spans of fragments from an index on that spell out a text, which begins at an offset of the
joined text. -/
inductive Spell (fragments : List String) : Nat → Nat → List Span → List Char → Prop
  | done (index offset : Nat) : Spell fragments index offset [] []
  | part (before rest : List String) (fragment : String) (head part behind : List Char)
      {index offset : Nat} {spans : List Span} {later : List Char}
      (reached : index ≤ before.length)
      (split : fragments = before ++ fragment :: rest)
      (text : fragment.toList = head ++ part ++ behind)
      (goes : part ≠ [])
      (place : offset = bytes (concat before ++ head))
      (others : Spell fragments (before.length + 1) (offset + bytes part) spans later) :
      Spell fragments index offset (⟨before.length, bytes head, bytes part⟩ :: spans)
        (part ++ later)

namespace Spell

variable {fragments : List String} {index offset : Nat} {spans : List Span} {text : List Char}

theorem inside (spells : Spell fragments index offset spans text) :
    ∀ span ∈ spans, span.Inside fragments := by
  induction spells with
  | done => simp
  | part before rest fragment head part behind reached split text goes place others ih =>
      have at_ : fragments[before.length]? = some fragment := by simp [split]
      rw [List.forall_mem_cons]
      refine ⟨⟨bytes_pos goes, fragment, at_, ?_⟩, ih⟩
      rw [text, bytes_append, bytes_append]
      exact Nat.le_add_right ..

theorem le_fragment (spells : Spell fragments index offset spans text) :
    ∀ span ∈ spans, index ≤ span.fragment := by
  induction spells with
  | done => simp
  | part before rest fragment head part behind reached split text goes place others ih =>
      rw [List.forall_mem_cons]
      refine ⟨reached, fun span member => ?_⟩
      have later := ih span member
      omega

theorem ascending (spells : Spell fragments index offset spans text) :
    spans.Pairwise fun span next => span.fragment < next.fragment := by
  induction spells with
  | done => exact .nil
  | part before rest fragment head part behind reached split text goes place others ih =>
      exact .cons others.le_fragment ih

theorem tile (spells : Spell fragments index offset spans text) :
    Tile fragments offset (offset + bytes text) spans := by
  induction spells with
  | done => rfl
  | @part before rest fragment head part behind index offset spans later reached split text goes
      place others ih =>
      have begins : Span.first fragments ⟨before.length, bytes head, bytes part⟩ = offset := by
        rw [first, split, bytesBefore_length, place, bytes_append]
      refine ⟨begins, ?_⟩
      rw [last, begins, bytes_append, ← Nat.add_assoc]
      exact ih

/-- What the spans cover of the fragments is the text that they spell out. -/
theorem replay (spells : Spell fragments index offset spans text) :
    (spans.flatMap fun span => (fragments[span.fragment]?.bind span.slice?).getD []) = text := by
  induction spells with
  | done => rfl
  | part before rest fragment head part behind reached split text goes place others ih =>
      have at_ : fragments[before.length]? = some fragment := by simp [split]
      have read : Span.slice? ⟨before.length, bytes head, bytes part⟩ fragment = some part := by
        rw [slice?, text, List.append_assoc]
        simp [cut?_bytes]
      rw [List.flatMap_cons, ih, at_, Option.bind_some, read, Option.getD_some]

theorem weaken {lower : Nat} (spells : Spell fragments index offset spans text)
    (le : lower ≤ index) : Spell fragments lower offset spans text := by
  cases spells with
  | done => exact .done lower offset
  | part before rest fragment head part behind reached split text goes place others =>
      exact .part before rest fragment head part behind (Nat.le_trans le reached) split text goes
        place others

/-- Whole fragments are spelled out before what comes behind them. -/
theorem whole (before between rest : List String) (split : fragments = before ++ (between ++ rest))
    (count : before.length = index) (place : offset = bytes (concat before))
    (spells : Spell fragments (index + between.length) (offset + bytes (concat between)) spans text) :
    Spell fragments index offset (Span.whole index between ++ spans) (concat between ++ text) := by
  induction between generalizing before index offset with
  | nil => exact spells
  | cons fragment more ih =>
      have later : Spell fragments (index + 1) (offset + bytes fragment.toList)
          (Span.whole (index + 1) more ++ spans) (concat more ++ text) := by
        apply ih (before ++ [fragment])
        · simp [split]
        · simp [count]
        · simp [place, bytes_append]
        · rw [List.length_cons, concat_cons, bytes_append] at spells
          rwa [Nat.add_assoc index, Nat.add_comm 1, Nat.add_assoc offset]
      rw [Span.whole, concat_cons, List.append_assoc]
      by_cases empty : fragment.toList = []
      · rw [empty] at later
        rw [if_pos empty, empty]
        exact later.weaken (Nat.le_succ index)
      · rw [if_neg empty, ← count]
        rw [← count] at later
        apply part before (more ++ rest) fragment [] fragment.toList [] (Nat.le_refl _) split
          (List.append_nil _).symm empty _ later
        rw [place, List.append_nil]

end Spell

end Span

/-- The spans of a stretch of the text spell it out. -/
theorem Cursor.Lies.spell {fragments : List String} {front key : List Char} {spans : List Span}
    {cursor : Cursor} (goes : key ≠ []) (lies : Lies 0 0 fragments front key spans cursor) :
    Span.Spell fragments 0 (bytes front) spans key := by
  cases lies with
  | within before rest fragment head behind split start text covers stays =>
      have one := Span.Spell.part before rest fragment head key behind (Nat.zero_le _) split text
        goes (congrArg bytes start) (.done _ _)
      rwa [List.append_nil, ← Nat.zero_add before.length, ← covers] at one
  | across before between rest first last head opening closing behind split start covered
      textFirst textLast opens closes covers stays =>
      have count : (before ++ first :: between).length = before.length + 1 + between.length := by
        simp only [List.length_append, List.length_cons]
        omega
      have size : bytes (concat (before ++ first :: between)) =
          bytes front + bytes opening + bytes (concat between) := by
        rw [start, concat_append, concat_cons, textFirst]
        simp only [bytes_append]
        omega
      have ending := Span.Spell.part (before ++ first :: between) rest last [] closing behind
        (Nat.le_refl _) split textLast closes (by rw [List.append_nil]) (.done _ _)
      rw [count, size, List.append_nil] at ending
      have inner := ending.whole (before ++ [first]) between (last :: rest) (by simp [split])
        (by simp) (by simp [start, textFirst, bytes_append, Nat.add_assoc])
      rw [covers, Nat.zero_add, covered, List.append_assoc]
      refine .part before (between ++ last :: rest) first head opening [] (Nat.zero_le _) ?_ ?_
        opens (congrArg bytes start) inner
      · rw [split, List.append_assoc, List.cons_append]
      · rw [textFirst, List.append_nil]

/-- An alignment covers its stretch of the joined text: its spans are not empty, lie in fragments
that exist, go through them in order and follow one another from the beginning of the stretch to its
end, so that they skip empty fragments only. -/
structure Alignment.Covers (a : Alignment) (fragments : List String) : Prop where
  inside : ∀ span ∈ a.spans, span.Inside fragments
  ascending : a.spans.Pairwise fun span next => span.fragment < next.fragment
  tile : Span.Tile fragments a.start a.stop a.spans
  skips : a.spans.IsChain fun span next =>
    ∀ index, span.fragment < index → index < next.fragment → fragments[index]? = some ""

theorem Span.Tile.skips {fragments : List String} {start stop : Nat} {spans : List Span}
    (tile : Tile fragments start stop spans) (inside : ∀ span ∈ spans, span.Inside fragments) :
    spans.IsChain fun span next =>
      ∀ index, span.fragment < index → index < next.fragment → fragments[index]? = some "" := by
  induction spans generalizing start with
  | nil => exact .nil
  | cons span rest ih =>
      obtain ⟨-, others⟩ := tile
      obtain ⟨here, later⟩ := List.forall_mem_cons.1 inside
      cases rest with
      | nil => exact .singleton span
      | cons next more =>
          apply List.IsChain.cons_cons _ (ih others later)
          intro index behind before
          exact skipped_eq_empty here (later next (List.mem_cons_self ..)) others.1 behind before

theorem Cursor.map_alignAll (cursor : Cursor) (found : List Occurrence) :
    (cursor.alignAll found).map (fun a => (a.key, a.start, a.stop)) =
      found.map fun o => (String.ofList o.placeholder.text, o.start, o.stop) := by
  induction found generalizing cursor with
  | nil => rfl
  | cons o rest ih => exact congrArg (_ :: ·) (ih _)

/-- There is one alignment for each placeholder in the joined text, in order, with its text and its
range. Each covers its placeholder exactly, so that the placeholder can be read from the fragments
again. -/
theorem align_covers (kind : PlaceholderKind) (fragments : List String) :
    (align kind fragments).map (fun a => (a.key, a.start, a.stop)) =
        (occurrences kind (String.ofList (concat fragments))).map
          (fun o => (String.ofList o.placeholder.text, o.start, o.stop)) ∧
      ∀ a ∈ align kind fragments, a.Covers fragments ∧ a.replay fragments = a.key := by
  refine ⟨Cursor.map_alignAll _ _, fun a member => ?_⟩
  obtain ⟨p, front, cursor, key, start, stop, lies⟩ := lies_of_mem_align member
  have spells := lies.spell p.text_ne_nil
  have tile : Span.Tile fragments a.start a.stop a.spans := by
    rw [stop, start]
    exact spells.tile
  refine ⟨⟨spells.inside, spells.ascending, tile, tile.skips spells.inside⟩, ?_⟩
  rw [Alignment.replay, spells.replay, key]

/-- A line in which a name is cut by an empty run, an age follows right behind it, and a title comes
to its end behind another empty run. -/
def cutLine : List String := ["Dear ", "\x7bNa", "", "me\x7d{Age}", "\x7bTitle", "", "\x7d"]

/-- The name covers the second fragment and the beginning of the fourth. -/
def cutName : Alignment := ⟨"{Name}", 5, 11, [⟨1, 0, 3⟩, ⟨3, 0, 3⟩]⟩

theorem cutLine_covered :
    cutName ∈ align .scalar cutLine ∧ cutName.Covers cutLine ∧
      cutName.replay cutLine = "{Name}" ∧
      (align .scalar cutLine).map Alignment.spans =
        [[⟨1, 0, 3⟩, ⟨3, 0, 3⟩], [⟨3, 3, 5⟩], [⟨4, 0, 6⟩, ⟨6, 0, 1⟩]] := by
  have aligned : align .scalar cutLine =
      [cutName, ⟨"{Age}", 11, 16, [⟨3, 3, 5⟩]⟩, ⟨"{Title}", 16, 23, [⟨4, 0, 6⟩, ⟨6, 0, 1⟩]⟩] := by
    cbv
  have member : cutName ∈ align .scalar cutLine := by
    rw [aligned]
    exact .head _
  obtain ⟨covers, replay⟩ := (align_covers .scalar cutLine).2 cutName member
  exact ⟨member, covers, replay, by rw [aligned]; rfl⟩

end Stencil
