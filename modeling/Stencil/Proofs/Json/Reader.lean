import Stencil.Json.Reader
import Stencil.Proofs.Json.Lexer

/-! A tree is read back from its text. The machine that reads has no rule for a tree as a whole, so
what it does with one is said for any open arrays and objects around it. -/

namespace Stencil.Json

/-- The first token of a tree is none that ends an array. -/
theorem exists_tokens_cons (tree : Json) :
    ∃ first rest, tree.tokens = first :: rest ∧ first ≠ .closeArray := by
  cases tree <;> exact ⟨_, _, rfl, nofun⟩

theorem exists_itemTokens_cons (item : Json) (more : List Json) :
    ∃ behind, itemTokens (item :: more) = item.tokens ++ behind := by
  cases more with
  | nil => exact ⟨[], by rw [itemTokens, List.append_nil]⟩
  | cons next more => exact ⟨_, by rw [itemTokens]; exact nofun⟩

namespace State

theorem run_cons (s : State) (token : Token) (rest : List Token) :
    s.run (token :: rest) = (s.step token).bind fun s => s.run rest := rfl

theorem run_key (held : List (String × Json)) (key : String) (frames : List Frame)
    (rest : List Token) :
    run ⟨frames, .key held⟩ (.text (some key) :: .colon :: rest) =
      run ⟨.members held key :: frames, .value⟩ rest := rfl

/-- The first item of an array begins like any other. -/
theorem run_itemOrEnd (frames : List Frame) (tree : Json) (rest : List Token) :
    run ⟨frames, .itemOrEnd⟩ (tree.tokens ++ rest) =
      run ⟨frames, .value⟩ (tree.tokens ++ rest) := by
  obtain ⟨first, behind, shape, goes⟩ := tree.exists_tokens_cons
  rw [shape, List.cons_append, run_cons, run_cons]
  congr 1
  unfold step
  dsimp only
  split
  · exact absurd rfl goes
  · rfl

-- The induction is on the tree. Open arrays and objects around it stay below what it opens itself,
-- so they are the same before and after.
mutual

theorem run_tokens : ∀ (tree : Json) (frames : List Frame) (rest : List Token),
    run ⟨frames, .value⟩ (tree.tokens ++ rest) = run ⟨frames, .done tree⟩ rest
  | .null, _, _ => by rw [tokens]; rfl
  | .bool _, _, _ => by rw [tokens]; rfl
  | .number _, _, _ => by rw [tokens]; rfl
  | .text _, _, _ => by rw [tokens]; rfl
  | .array items, frames, rest => by
      rw [tokens, List.append_assoc, List.cons_append, List.singleton_append, run_cons]
      change run ⟨.items [] :: frames, .itemOrEnd⟩ _ = _
      match items with
      | [] => rfl
      | item :: more =>
          have filled := run_itemTokens (item :: more) [] frames rest nofun
          obtain ⟨behind, shape⟩ := exists_itemTokens_cons item more
          rw [shape, List.append_assoc] at filled ⊢
          rw [run_itemOrEnd, filled]
          rfl
  | .object members, frames, rest => by
      rw [tokens, List.append_assoc, List.cons_append, List.singleton_append, run_cons]
      change run ⟨frames, .keyOrEnd⟩ _ = _
      match members with
      | [] => rfl
      | (key, value) :: more =>
          have first : run ⟨frames, .keyOrEnd⟩ (memberTokens ((key, value) :: more) ++
              .closeObject :: rest) = run ⟨frames, .key []⟩ (memberTokens ((key, value) :: more) ++
              .closeObject :: rest) := by
            cases more <;> rw [memberTokens] <;> first | rfl | exact nofun
          rw [first, run_memberTokens ((key, value) :: more) _ _ _ nofun]
          rfl

theorem run_itemTokens : ∀ (items held : List Json) (frames : List Frame) (rest : List Token),
    items ≠ [] →
    run ⟨.items held :: frames, .value⟩ (itemTokens items ++ .closeArray :: rest) =
      run ⟨frames, .done (.array (held.reverse ++ items))⟩ rest
  | [], _, _, _, goes => absurd rfl goes
  | [item], held, frames, rest, _ => by
      rw [itemTokens, run_tokens item, run_cons]
      change run ⟨frames, .done (.array (item :: held).reverse)⟩ rest = _
      rw [List.reverse_cons]
  | item :: next :: more, held, frames, rest, _ => by
      rw [itemTokens, List.append_assoc, run_tokens item, List.cons_append, run_cons]
      · change run ⟨.items (item :: held) :: frames, .value⟩ _ = _
        rw [run_itemTokens (next :: more) _ _ _ nofun, List.reverse_cons, List.append_assoc,
          List.singleton_append]
      · exact nofun

theorem run_memberTokens : ∀ (members held : List (String × Json)) (frames : List Frame)
    (rest : List Token), members ≠ [] →
    run ⟨frames, .key held⟩ (memberTokens members ++ .closeObject :: rest) =
      run ⟨frames, .done (.object (held.reverse ++ members))⟩ rest
  | [], _, _, _, goes => absurd rfl goes
  | [(key, value)], held, frames, rest, _ => by
      rw [memberTokens, List.cons_append, List.cons_append, run_key, run_tokens value, run_cons]
      change run ⟨frames, .done (.object ((key, value) :: held).reverse)⟩ rest = _
      rw [List.reverse_cons]
  | (key, value) :: next :: more, held, frames, rest, _ => by
      rw [memberTokens, List.append_assoc, List.cons_append, List.cons_append, run_key,
        run_tokens value, List.cons_append, run_cons]
      · change run ⟨frames, .key ((key, value) :: held)⟩ _ = _
        rw [run_memberTokens (next :: more) _ _ _ nofun, List.reverse_cons, List.append_assoc,
          List.singleton_append]
      · exact nofun

end

end State

/-! ### Numbers apart -/

theorem apart_append {first second : List Token} {mark : Token} (other : mark.isNumber = false)
    (before : first.IsChain Apart) (behind : second.IsChain Apart) :
    (first ++ mark :: second).IsChain Apart := by
  have left (token : Token) : Apart token mark := fun both => by rw [other] at both; cases both.2
  have right (token : Token) : Apart mark token := fun both => by rw [other] at both; cases both.1
  refine List.isChain_append.2 ⟨before, ?_, fun token _ next same => ?_⟩
  · exact List.isChain_cons.2 ⟨fun token _ => right token, behind⟩
  · cases same
    exact left token

theorem apart_cons {mark : Token} {tokens : List Token} (other : mark.isNumber = false)
    (behind : tokens.IsChain Apart) : (mark :: tokens).IsChain Apart :=
  apart_append other List.isChain_nil behind

mutual

theorem apart_tokens : ∀ tree : Json, tree.tokens.IsChain Apart
  | .null => by rw [tokens]; exact List.isChain_singleton _
  | .bool _ => by rw [tokens]; exact List.isChain_singleton _
  | .number _ => by rw [tokens]; exact List.isChain_singleton _
  | .text _ => by rw [tokens]; exact List.isChain_singleton _
  | .array items => by
      rw [tokens]
      exact apart_append rfl (apart_cons rfl (apart_itemTokens items)) List.isChain_nil
  | .object members => by
      rw [tokens]
      exact apart_append rfl (apart_cons rfl (apart_memberTokens members)) List.isChain_nil

theorem apart_itemTokens : ∀ items : List Json, (itemTokens items).IsChain Apart
  | [] => by rw [itemTokens]; exact List.isChain_nil
  | [only] => by rw [itemTokens]; exact apart_tokens only
  | item :: next :: more => by
      rw [itemTokens]
      · exact apart_append rfl (apart_tokens item) (apart_itemTokens (next :: more))
      · exact nofun

theorem apart_memberTokens : ∀ members : List (String × Json), (memberTokens members).IsChain Apart
  | [] => by rw [memberTokens]; exact List.isChain_nil
  | [(key, value)] => by
      rw [memberTokens]
      exact apart_cons rfl (apart_cons rfl (apart_tokens value))
  | (key, value) :: next :: more => by
      rw [memberTokens]
      · exact apart_append rfl (apart_cons rfl (apart_cons rfl (apart_tokens value)))
          (apart_memberTokens (next :: more))
      · exact nofun

end

/-! ### Texts of trees -/

/-- A tree whose numbers are whole and whose texts are complete. -/
def Plain (tree : Json) : Prop := ∀ token ∈ tree.tokens, token.Plain

theorem plain_null : (null).Plain := List.forall_mem_singleton.2 trivial

theorem plain_bool (value : Bool) : (bool value).Plain := List.forall_mem_singleton.2 trivial

theorem plain_ofText (s : String) : (ofText s).Plain := List.forall_mem_singleton.2 rfl

theorem plain_ofInt (n : Int) : (ofInt n).Plain := List.forall_mem_singleton.2 ⟨n, rfl⟩

theorem plain_array {items : List Json} (plain : ∀ item ∈ items, item.Plain) :
    (array items).Plain := by
  have all : ∀ token ∈ itemTokens items, token.Plain := by
    induction items with
    | nil => exact fun _ nothing => nomatch nothing
    | cons item more ih =>
        obtain ⟨one, others⟩ := List.forall_mem_cons.1 plain
        cases more with
        | nil => exact one
        | cons next more =>
            rw [itemTokens]
            · exact List.forall_mem_append.2 ⟨one, List.forall_mem_cons.2 ⟨trivial, ih others⟩⟩
            · exact nofun
  rw [Plain, tokens, List.forall_mem_append, List.forall_mem_cons]
  exact ⟨⟨trivial, all⟩, List.forall_mem_singleton.2 trivial⟩

theorem plain_object {members : List (String × Json)}
    (plain : ∀ member ∈ members, member.2.Plain) : (object members).Plain := by
  have all : ∀ token ∈ memberTokens members, token.Plain := by
    induction members with
    | nil => exact fun _ nothing => nomatch nothing
    | cons member more ih =>
        obtain ⟨key, value⟩ := member
        obtain ⟨one, others⟩ := List.forall_mem_cons.1 plain
        have field : ∀ token ∈ Token.text (some key) :: Token.colon :: value.tokens, token.Plain :=
          List.forall_mem_cons.2 ⟨rfl, List.forall_mem_cons.2 ⟨trivial, one⟩⟩
        cases more with
        | nil => exact field
        | cons next more =>
            rw [memberTokens]
            · exact List.forall_mem_append.2 ⟨field, List.forall_mem_cons.2 ⟨trivial, ih others⟩⟩
            · exact nofun
  rw [Plain, tokens, List.forall_mem_append, List.forall_mem_cons]
  exact ⟨⟨trivial, all⟩, List.forall_mem_singleton.2 trivial⟩

/-- A plain tree is read back from its text. -/
theorem read?_write {tree : Json} (plain : tree.Plain) : read? (write tree) = some tree := by
  have ran := State.run_tokens tree [] []
  rw [List.append_nil] at ran
  rw [read?, write, String.toList_ofList, lex?_write plain tree.apart_tokens]
  change (State.start.run tree.tokens).bind _ = _
  rw [State.start, ran]
  rfl

end Stencil.Json
