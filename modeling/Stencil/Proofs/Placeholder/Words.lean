import Mathlib
import Stencil.Proofs.Placeholder.Whole
import Stencil.Proofs.Value.Segments

/-! The two patterns as languages. Their words are what the well formed placeholders of each kind
are written as. -/

namespace Stencil

open Computability

namespace Words

/-- One character of `a-z`, `A-Z` and `0-9`. -/
def letterOrDigit : Language Char :=
  {w | ∃ c : Char, ('a' ≤ c ∧ c ≤ 'z' ∨ 'A' ≤ c ∧ c ≤ 'Z' ∨ '0' ≤ c ∧ c ≤ '9') ∧ w = [c]}

def only (c : Char) : Language Char := {[c]}

def oneOrMore (words : Language Char) : Language Char := words * words∗

/-- Segments with a colon between two of them. -/
def path : Language Char := oneOrMore letterOrDigit * (only ':' * oneOrMore letterOrDigit)∗

def scalar : Language Char := only '{' * oneOrMore (letterOrDigit + only ':') * only '}'

def collection : Language Char :=
  only '[' * path * only ']' + only '[' * path * only '.' * path * only ']'

theorem mem_only {c : Char} {w : List Char} : w ∈ only c ↔ w = [c] := Iff.rfl

theorem mem_letterOrDigit {w : List Char} :
    w ∈ letterOrDigit ↔ ∃ c : Char, c.isAlphanum = true ∧ w = [c] := by
  refine exists_congr fun c => and_congr_left fun _ => ?_
  simp only [Char.isAlphanum, Char.isAlpha, Char.isUpper, Char.isLower, Char.isDigit,
    Bool.or_eq_true, Bool.and_eq_true, decide_eq_true_eq, Char.le_def, ge_iff_le]
  tauto

theorem mem_pathChar {w : List Char} :
    w ∈ letterOrDigit + only ':' ↔ ∃ c : Char, Placeholder.isPathChar c = true ∧ w = [c] := by
  simp only [Language.mem_add, mem_letterOrDigit, mem_only, Placeholder.isPathChar,
    Bool.or_eq_true, beq_iff_eq, or_and_right, exists_or, exists_eq_left]

/-- The words of one or more characters of a class. -/
theorem mem_oneOrMore {chars : Language Char} {p : Char → Bool}
    (one : ∀ {w}, w ∈ chars ↔ ∃ c, p c = true ∧ w = [c]) {w : List Char} :
    w ∈ oneOrMore chars ↔ w ≠ [] ∧ w.all p = true := by
  constructor
  · rintro ⟨first, here, later, ⟨others, rfl, all⟩, rfl⟩
    obtain ⟨c, good, rfl⟩ := one.1 here
    refine ⟨List.cons_ne_nil _ _, ?_⟩
    change (c :: others.flatten).all p = true
    rw [List.all_cons, good, Bool.true_and, List.all_eq_true]
    intro d member
    obtain ⟨word, inside, held⟩ := List.mem_flatten.1 member
    obtain ⟨e, fine, rfl⟩ := one.1 (all word inside)
    rwa [List.mem_singleton.1 held]
  · rintro ⟨nonempty, all⟩
    obtain ⟨c, rest, rfl⟩ := List.exists_cons_of_ne_nil nonempty
    rw [List.all_cons, Bool.and_eq_true, List.all_eq_true] at all
    refine ⟨[c], one.2 ⟨c, all.1, rfl⟩, rest, ⟨rest.map ([·]), ?_, ?_⟩, rfl⟩
    · rw [← List.flatMap_def, List.flatMap_singleton']
    · intro word member
      obtain ⟨d, inside, rfl⟩ := List.mem_map.1 member
      exact one.2 ⟨d, all.2 d inside, rfl⟩

theorem mem_segment {w : List Char} :
    w ∈ oneOrMore letterOrDigit ↔ (!w.isEmpty && w.all Char.isAlphanum) = true := by
  rw [mem_oneOrMore mem_letterOrDigit, Bool.and_eq_true, Bool.not_eq_true',
    List.isEmpty_eq_false_iff]

theorem not_mem_of_segment {w : List Char} (segment : w ∈ oneOrMore letterOrDigit) : ':' ∉ w := by
  intro inside
  have chars := List.all_eq_true.1 ((mem_oneOrMore mem_letterOrDigit).1 segment).2 ':' inside
  exact absurd chars (by decide)

theorem append_mem_path {segment w : List Char} (first : segment ∈ oneOrMore letterOrDigit)
    (later : w ∈ path) : segment ++ ':' :: w ∈ path := by
  obtain ⟨second, here, others, ⟨more, rfl, all⟩, rfl⟩ := later
  refine ⟨segment, first, _, ⟨(':' :: second) :: more, rfl, ?_⟩, rfl⟩
  exact List.forall_mem_cons.2 ⟨⟨[':'], rfl, second, here, rfl⟩, all⟩

theorem mem_path {w : List Char} : w ∈ path ↔ Placeholder.isPath w = true := by
  constructor
  · rintro ⟨first, here, later, ⟨others, rfl, all⟩, rfl⟩
    change Placeholder.isPath (first ++ others.flatten) = true
    induction others generalizing first with
    | nil =>
        rw [List.flatten_nil, List.append_nil, Placeholder.isPath,
          List.splitOn_eq_singleton (not_mem_of_segment here), List.all_cons, mem_segment.1 here]
        rfl
    | cons word more ih =>
        obtain ⟨⟨colon, rfl, segment, good, rfl⟩, others⟩ := List.forall_mem_cons.1 all
        have later := ih segment good others
        rw [Placeholder.isPath] at later ⊢
        change ((first ++ ':' :: (segment ++ more.flatten)).splitOn ':').all _ = true
        rw [List.splitOn_append_cons_self, List.all_append, later,
          List.splitOn_eq_singleton (not_mem_of_segment here), List.all_cons, mem_segment.1 here]
        rfl
  · intro good
    rw [Placeholder.isPath, List.all_eq_true] at good
    have joined : [':'].intercalate (w.splitOn ':') = w := List.intercalate_splitOn ':'
    have nonempty := List.splitOn_ne_nil ':' w
    generalize w.splitOn ':' = segments at good nonempty joined
    subst joined
    induction segments with
    | nil => exact absurd rfl nonempty
    | cons first others ih =>
        obtain ⟨here, later⟩ := List.forall_mem_cons.1 good
        cases others with
        | nil =>
            rw [List.intercalate_singleton, ← List.append_nil first]
            exact ⟨first, mem_segment.2 here, [], Language.nil_mem_kstar _, rfl⟩
        | cons second more =>
            rw [List.intercalate_cons_cons, List.append_assoc, List.singleton_append]
            exact append_mem_path (mem_segment.2 here) (ih later (List.cons_ne_nil _ _))

end Words

/-- The words of the pattern of a kind. -/
def PlaceholderKind.words : PlaceholderKind → Language Char
  | scalar => Words.scalar
  | collection => Words.collection

/-- The words of a pattern are what the placeholders of that kind are written as. -/
theorem mem_words_iff {kind : PlaceholderKind} {w : List Char} :
    w ∈ kind.words ↔ ∃ p : Placeholder, p.kind = kind ∧ p.WellFormed ∧ p.text = w := by
  cases kind with
  | scalar =>
      constructor
      · rintro ⟨_, ⟨opening, rfl, path, inside, rfl⟩, closing, rfl, rfl⟩
        exact ⟨.scalar path, rfl, (Words.mem_oneOrMore Words.mem_pathChar).1 inside, rfl⟩
      · rintro ⟨p, kind, good, rfl⟩
        cases p with
        | collection path property => cases kind
        | scalar path =>
            have inside := (Words.mem_oneOrMore Words.mem_pathChar).2 good
            exact ⟨'{' :: path, ⟨['{'], rfl, path, inside, rfl⟩, ['}'], rfl, rfl⟩
  | collection =>
      constructor
      · rintro (⟨_, ⟨opening, rfl, path, outer, rfl⟩, closing, rfl, rfl⟩ |
          ⟨_, ⟨_, ⟨_, ⟨opening, rfl, path, outer, rfl⟩, dot, rfl, rfl⟩, name, inner, rfl⟩,
            closing, rfl, rfl⟩)
        · refine ⟨.collection path none, rfl, ⟨Words.mem_path.1 outer, ?_⟩, rfl⟩
          exact fun name present => by cases present
        · refine ⟨.collection path (some name), rfl, ⟨Words.mem_path.1 outer, ?_⟩, ?_⟩
          · intro name present
            cases present
            exact Words.mem_path.1 inner
          · simp [Placeholder.text]
      · rintro ⟨p, kind, good, rfl⟩
        cases p with
        | scalar path => cases kind
        | collection path property =>
            have outer := Words.mem_path.2 good.1
            cases property with
            | none =>
                exact .inl ⟨'[' :: path, ⟨['['], rfl, path, outer, rfl⟩, [']'], rfl, rfl⟩
            | some name =>
                have inner := Words.mem_path.2 (good.2 name rfl)
                refine .inr ⟨_, ⟨_, ⟨_, ⟨['['], rfl, path, outer, rfl⟩, ['.'], rfl, rfl⟩, name,
                  inner, rfl⟩, [']'], rfl, ?_⟩
                simp [Placeholder.text]

end Stencil
