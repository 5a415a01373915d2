import Mathlib.Data.List.Chain
import Stencil.Json.Lexer
import Stencil.Json.Writer
import Stencil.Proofs.Decimal.Digits

/-! Cutting what tokens write gives the tokens again. Only a number could run on into what is behind
it, so no number may stand right before another. -/

namespace Stencil.Json

open Numeral

/-! ### Strings -/

theorem hexDigit?_digitChar : ∀ n < 16, Text.hexDigit? (Nat.digitChar n) = some n := by
  decide

/-- A character is read back from the way it is escaped. -/
theorem takeUnits?_escape (c : Char) (rest : List Char) :
    takeUnits? (escape c ++ rest) =
      (takeUnits? rest).map fun (units, rest) => (.char c :: units, rest) := by
  unfold escape
  split
  case h_8 quote backslash _ _ _ _ _ =>
    by_cases control : c.toNat < 0x20
    -- Its code has two digits, and is none of a surrogate.
    · have high := hexDigit?_digitChar (c.toNat / 16) (by omega)
      have low := hexDigit?_digitChar (c.toNat % 16) (by omega)
      have zero : Text.hexDigit? '0' = some 0 := by decide
      have code : ((0 * 16 + 0) * 16 + c.toNat / 16) * 16 + c.toNat % 16 = c.toNat := by omega
      have unit : unitOf c.toNat = .char c := by
        rw [unitOf, if_neg (by simp; omega), Char.ofNat_toNat]
      rw [if_pos control]
      change takeUnits? ('\\' :: 'u' :: '0' :: '0' :: _ :: _ :: rest) = _
      rw [takeUnits?, zero, high, low]
      dsimp only
      rw [code, unit]
    · have plain : ¬ (c.toNat < 0x20 || c = '\\') = true := by
        simpa [control] using backslash
      rw [if_neg control, List.singleton_append, takeUnits?, if_neg plain]
      · exact quote
      · exact fun _ _ _ _ _ same => absurd same backslash
      · exact fun _ _ same => absurd same backslash
  all_goals rfl

theorem takeUnits?_quoted (chars rest : List Char) :
    takeUnits? (chars.flatMap escape ++ '"' :: rest) = some (chars.map .char, rest) := by
  induction chars with
  | nil => rfl
  | cons c more ih => rw [List.flatMap_cons, List.append_assoc, takeUnits?_escape, ih]; rfl

theorem pairUp?_chars (chars : List Char) : pairUp? (chars.map .char) = some chars := by
  induction chars with
  | nil => rfl
  | cons c more ih => rw [List.map_cons, pairUp?, ih, Option.map_some]

/-! ### Numbers -/

/-- The text does not go on with a part of a number. -/
def EndsNumber (rest : List Char) : Prop :=
  ∀ c ∈ rest.head?, c.isDigit = false ∧ c ≠ '.' ∧ c ≠ 'e' ∧ c ≠ 'E'

theorem EndsNumber.endsDigits {rest : List Char} (ends : EndsNumber rest) : EndsDigits rest :=
  fun c first => (ends c first).1

theorem takeWhole?_toDigits (n : Nat) {rest : List Char} (ends : EndsDigits rest) :
    takeWhole? (Nat.toDigits 10 n ++ rest) = some (Nat.toDigits 10 n, rest) := by
  cases n with
  | zero =>
      have behind : ¬ (rest.head?.any Char.isDigit) = true := by
        rw [Option.any_eq_true]
        rintro ⟨c, first, digit⟩
        rw [ends c first] at digit
        cases digit
      rw [Nat.toDigits_zero, List.singleton_append, takeWhole?, if_neg behind]
  | succ n =>
      have digits : (Nat.toDigits 10 (n + 1) ++ rest).takeWhile Char.isDigit =
          Nat.toDigits 10 (n + 1) :=
        takeWhile_append_of_endsDigits (fun c => isDigit_of_mem_toDigits) ends
      have taken : takeDigits? (Nat.toDigits 10 (n + 1) ++ rest) =
          some (Nat.toDigits 10 (n + 1), rest) := by
        rw [takeDigits?, digits, List.drop_left, if_neg]
        exact fun empty => Nat.toDigits_ne_nil (List.isEmpty_iff.1 empty)
      have front := head_toDigits_ne_zero (Nat.succ_pos n)
      obtain ⟨c, more, shape⟩ :=
        List.exists_cons_of_ne_nil (Nat.toDigits_ne_nil (n := n + 1) (b := 10))
      rw [shape, List.cons_append] at taken ⊢
      rw [takeWhole?]
      · exact taken
      · intro _ same
        rw [shape] at front
        exact front (congrArg List.head? same)

theorem takeFraction?_of_ends {rest : List Char} (ends : EndsNumber rest) :
    takeFraction? rest = some ([], rest) := by
  rw [takeFraction?]
  rintro behind rfl
  exact (ends '.' rfl).2.1 rfl

theorem takeExponent?_of_ends {rest : List Char} (ends : EndsNumber rest) :
    takeExponent? rest = some ([], rest) := by
  cases rest with
  | nil => rfl
  | cons mark behind =>
      obtain ⟨-, -, small, great⟩ := ends mark rfl
      have other : ¬ (mark = 'e' || mark = 'E') = true := by simp [small, great]
      unfold takeExponent?
      exact if_neg other

theorem ofInt_of_neg {n : Int} (negative : n < 0) :
    ofInt n = .number ('-' :: Nat.toDigits 10 n.natAbs) := by
  rw [ofInt, if_pos negative]

theorem ofInt_of_nonneg {n : Int} (natural : 0 ≤ n) :
    ofInt n = .number (Nat.toDigits 10 n.natAbs) := by
  rw [ofInt, if_neg (Int.not_lt.2 natural)]

theorem exists_toDigits_cons (n : Nat) :
    ∃ c more, Nat.toDigits 10 n = c :: more ∧ c.isDigit = true := by
  obtain ⟨c, more, shape⟩ := List.exists_cons_of_ne_nil (Nat.toDigits_ne_nil (n := n) (b := 10))
  exact ⟨c, more, shape, isDigit_of_mem_toDigits (by rw [shape]; exact List.mem_cons_self ..)⟩

theorem exists_ofInt_cons {n : Int} {lexeme : List Char} (written : ofInt n = .number lexeme) :
    ∃ c more, lexeme = c :: more ∧ (c.isDigit = true ∨ c = '-') := by
  by_cases negative : n < 0
  · rw [ofInt_of_neg negative] at written
    cases written
    exact ⟨_, _, rfl, .inr rfl⟩
  · rw [ofInt_of_nonneg (Int.not_lt.1 negative)] at written
    cases written
    obtain ⟨c, more, shape, digit⟩ := exists_toDigits_cons n.natAbs
    exact ⟨c, more, shape, .inl digit⟩

theorem takeNumber?_ofInt {n : Int} {lexeme rest : List Char} (written : ofInt n = .number lexeme)
    (ends : EndsNumber rest) : takeNumber? (lexeme ++ rest) = some (lexeme, rest) := by
  have whole := takeWhole?_toDigits n.natAbs ends.endsDigits
  by_cases negative : n < 0
  · rw [ofInt_of_neg negative] at written
    cases written
    change (takeWhole? (Nat.toDigits 10 n.natAbs ++ rest)).bind _ = _
    simp only [whole, Option.bind_some, takeFraction?_of_ends ends, takeExponent?_of_ends ends,
      Option.bind_eq_bind, Option.pure_def, List.append_nil]
    rfl
  · rw [ofInt_of_nonneg (Int.not_lt.1 negative)] at written
    cases written
    obtain ⟨c, more, shape, digit⟩ := exists_toDigits_cons n.natAbs
    rw [shape] at whole ⊢
    have unsigned : c ≠ '-' := by
      rintro rfl
      cases digit
    unfold takeNumber?
    split
    rename_i sign input cut
    split at cut
    · rename_i same
      cases same
      exact absurd rfl unsigned
    · cases cut
      simp only [whole, Option.bind_some, takeFraction?_of_ends ends, takeExponent?_of_ends ends,
        Option.bind_eq_bind, Option.pure_def, List.append_nil]
      rfl

/-! ### Tokens -/

namespace Token

/-- Whole numbers, and texts without half of a surrogate pair. -/
def Plain : Token → Prop
  | number lexeme => ∃ n, ofInt n = .number lexeme
  | text content => content.isSome = true
  | _ => True

def isNumber : Token → Bool
  | number _ => true
  | _ => false

/-- What a token writes begins at once, and only a number begins like a part of a number. -/
theorem exists_write_cons {token : Token} (plain : token.Plain) :
    ∃ c behind, token.write = c :: behind ∧ isBlank c = false ∧
      (token.isNumber = false → c.isDigit = false ∧ c ≠ '.' ∧ c ≠ 'e' ∧ c ≠ 'E') := by
  cases token with
  | number lexeme =>
      obtain ⟨n, written⟩ := plain
      obtain ⟨c, more, shape, first⟩ := exists_ofInt_cons written
      refine ⟨c, more, shape, ?_, nofun⟩
      rcases first with digit | rfl
      · simp only [isBlank, Bool.or_eq_false_iff, beq_eq_false_iff_ne]
        refine ⟨⟨⟨?_, ?_⟩, ?_⟩, ?_⟩ <;> rintro rfl <;> cases digit
      · decide
  | bool value => cases value <;> exact ⟨_, _, rfl, by decide, fun _ => by decide⟩
  | _ => exact ⟨_, _, rfl, by decide, fun _ => by decide⟩

theorem takeToken?_write {token : Token} (plain : token.Plain) {rest : List Char}
    (ends : token.isNumber = true → EndsNumber rest) :
    takeToken? (token.write ++ rest) = some (token, rest) := by
  cases token with
  | number lexeme =>
      obtain ⟨n, written⟩ := plain
      have taken := takeNumber?_ofInt written (ends rfl)
      obtain ⟨c, behind, shape, first⟩ := exists_ofInt_cons written
      change takeToken? (lexeme ++ rest) = _
      rw [shape, List.cons_append] at taken ⊢
      unfold takeToken?
      split
      case h_11 =>
        rw [taken, Option.map_some]
      all_goals
        rename_i same
        obtain rfl := (List.cons.inj same).1
        rcases first with digit | sign
        · cases digit
        · cases sign
  | text content =>
      obtain ⟨s, rfl⟩ := Option.isSome_iff_exists.1 plain
      have taken := takeUnits?_quoted s.toList rest
      have shape : (text (some s)).write ++ rest =
          '"' :: (s.toList.flatMap escape ++ '"' :: rest) := by
        rw [write, quoted, Option.getD_some, List.cons_append, List.cons_append, List.append_assoc,
          List.singleton_append]
      rw [shape, takeToken?, taken, Option.map_some]
      dsimp only
      rw [pairUp?_chars, Option.map_some, String.ofList_toList]
  | bool value => cases value <;> rfl
  | _ => rfl

end Token

/-- Of two numbers that stand side by side the first would run on into the second. -/
def Apart (first second : Token) : Prop := ¬ (first.isNumber = true ∧ second.isNumber = true)

theorem endsNumber_write {first : Token} {tokens : List Token} (number : first.isNumber = true)
    (plain : ∀ token ∈ tokens, token.Plain) (apart : (first :: tokens).IsChain Apart) :
    EndsNumber (tokens.flatMap Token.write) := by
  cases tokens with
  | nil => exact fun c nothing => nomatch nothing
  | cons next rest =>
      have other : next.isNumber = false := by
        have apart := (List.isChain_cons_cons.1 apart).1
        simpa [Apart, number] using apart
      obtain ⟨c, behind, shape, -, begins⟩ :=
        Token.exists_write_cons (plain next (List.mem_cons_self ..))
      intro d found
      rw [List.flatMap_cons, shape] at found
      exact Option.some.inj found ▸ begins other

theorem lexFrom_write {tokens : List Token} {steps : Nat} (enough : tokens.length ≤ steps)
    (plain : ∀ token ∈ tokens, token.Plain) (apart : tokens.IsChain Apart) :
    lexFrom steps (tokens.flatMap Token.write) = some tokens := by
  induction tokens generalizing steps with
  | nil => cases steps <;> rfl
  | cons token rest ih =>
      -- Each token takes one step, which begins at once because the token has no blank before it.
      obtain ⟨steps, rfl⟩ := Nat.exists_eq_succ_of_ne_zero
        (Nat.ne_of_gt (Nat.lt_of_lt_of_le (Nat.succ_pos _) enough))
      have one := plain token (List.mem_cons_self ..)
      have others : ∀ token ∈ rest, token.Plain :=
        fun token member => plain token (List.mem_cons_of_mem _ member)
      have taken := Token.takeToken?_write one fun number => endsNumber_write number others apart
      obtain ⟨c, behind, shape, solid, -⟩ := Token.exists_write_cons one
      have further := ih (Nat.le_of_succ_le_succ enough) others apart.of_cons
      rw [List.flatMap_cons, lexFrom]
      rw [shape, List.cons_append] at taken ⊢
      rw [List.dropWhile_cons_of_neg (by rw [solid]; exact Bool.false_ne_true)]
      dsimp only
      rw [taken, Option.bind_eq_bind, Option.bind_some]
      dsimp only
      rw [further]
      rfl

theorem lex?_write {tokens : List Token} (plain : ∀ token ∈ tokens, token.Plain)
    (apart : tokens.IsChain Apart) : lex? (tokens.flatMap Token.write) = some tokens := by
  refine lexFrom_write ?_ plain apart
  clear apart
  induction tokens with
  | nil => exact Nat.le_refl _
  | cons token rest ih =>
      obtain ⟨c, behind, shape, -⟩ := Token.exists_write_cons (plain token (List.mem_cons_self ..))
      have others := ih fun token member => plain token (List.mem_cons_of_mem _ member)
      rw [List.flatMap_cons, shape, List.length_append, List.length_cons, List.length_cons]
      omega

end Stencil.Json
