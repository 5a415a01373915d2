import Mathlib
import Stencil.Json.Markup
import Stencil.Proofs.Json.Reader

/-! What is asked of a JSON tree, answered for the trees that are written: whole numbers, indices,
lists and records. -/

namespace Stencil.Json

open Numeral

/-! ### Whole numbers -/

theorem ofInt_natCast (n : Nat) : ofInt n = ofNat n := by
  rw [ofInt_of_nonneg (Int.natCast_nonneg n), Int.natAbs_natCast, ofNat]

/-- Digits that spell a word fit into a word from the first on. -/
theorem intoWord_of_le {digits : List Char} {word : Nat}
    (fits : Nat.ofDigitChars 10 digits word ≤ greatestWord) :
    intoWord word digits = (Nat.ofDigitChars 10 digits word, []) := by
  induction digits generalizing word with
  | nil => rfl
  | cons c rest ih =>
      rw [Nat.ofDigitChars_cons] at fits ⊢
      have grows : 10 * word + (c.toNat - '0'.toNat) ≤
          Nat.ofDigitChars 10 rest (10 * word + (c.toNat - '0'.toNat)) := by
        rw [Nat.ofDigitChars_eq_ofDigitChars_zero]
        exact Nat.le_add_right_of_le (Nat.le_mul_of_pos_left _ (Nat.pow_pos (by decide)))
      rw [intoWord, if_neg (Nat.not_lt.2 (Nat.le_trans grows fits)), ih fits]

theorem takeSign_toDigits (n : Nat) :
    takeSign (Nat.toDigits 10 n) = (false, Nat.toDigits 10 n) := by
  obtain ⟨c, more, shape, digit⟩ := exists_toDigits_cons n
  rw [shape, takeSign]
  · rintro _ same
    obtain rfl := (List.cons.inj same).1
    cases digit
  · rintro _ same
    obtain rfl := (List.cons.inj same).1
    cases digit

theorem numeral_of_takeSign {text : List Char} {negative : Bool} {n : Nat}
    (sign : takeSign text = (negative, Nat.toDigits 10 n)) :
    Numeral.ofText? text = some ⟨negative, Nat.toDigits 10 n, [], 0⟩ := by
  have all : ∀ c ∈ Nat.toDigits 10 n, c.isDigit = true := fun c => isDigit_of_mem_toDigits
  have whole : (Nat.toDigits 10 n).takeWhile Char.isDigit = Nat.toDigits 10 n :=
    List.takeWhile_eq_self_iff.2 all
  have rest : (Nat.toDigits 10 n).dropWhile Char.isDigit = [] :=
    List.dropWhile_eq_nil_iff.2 all
  have some : (Nat.toDigits 10 n).isEmpty = false := by
    rw [List.isEmpty_eq_false_iff]
    exact Nat.toDigits_ne_nil
  simp only [Numeral.ofText?, sign, whole, rest, some, Bool.false_and]
  rfl

/-- Whole numbers that a signed or an unsigned word holds are read exactly. -/
theorem scalar?_ofInt {n : Int} (low : -2 ^ 63 ≤ n) (high : n < 2 ^ 64) :
    (ofInt n).scalar? = some (.integer n) := by
  have word : intoWord 0 (Nat.toDigits 10 n.natAbs) = (n.natAbs, []) := by
    have fits : Nat.ofDigitChars 10 (Nat.toDigits 10 n.natAbs) 0 ≤ greatestWord := by
      rw [Nat.ofDigitChars_ten_toDigits]
      change n.natAbs ≤ 18446744073709551615
      omega
    rw [intoWord_of_le fits, Nat.ofDigitChars_ten_toDigits]
  have all : (Nat.toDigits 10 n.natAbs).all (fun c => c.isDigit || c == '-') = true := by
    rw [List.all_eq_true]
    intro c member
    rw [isDigit_of_mem_toDigits member, Bool.true_or]
  by_cases negative : n < 0
  · have numeral : Numeral.ofText? ('-' :: Nat.toDigits 10 n.natAbs) =
        some ⟨true, Nat.toDigits 10 n.natAbs, [], 0⟩ := numeral_of_takeSign rfl
    have size : (0 < n.natAbs && n.natAbs ≤ 1 <<< 63) = true := by
      rw [Bool.and_eq_true, decide_eq_true_iff, decide_eq_true_iff]
      omega
    rw [ofInt_of_neg negative]
    simp only [scalar?, number?, numeral, Option.bind_eq_bind, Option.bind_some, word,
      List.isEmpty_nil, List.all_cons, all]
    rw [if_pos (by decide), if_neg (by decide), if_pos size]
    exact congrArg (fun k => some (Scalar.integer k)) (by omega : -(n.natAbs : Int) = n)
  · have numeral := numeral_of_takeSign (takeSign_toDigits n.natAbs)
    rw [ofInt_of_nonneg (Int.not_lt.1 negative)]
    simp only [scalar?, number?, numeral, Option.bind_eq_bind, Option.bind_some, word,
      List.isEmpty_nil, all]
    rw [if_pos (by decide), if_pos (by decide)]
    exact congrArg (fun k => some (Scalar.integer k)) (by omega : (n.natAbs : Int) = n)

theorem natural?_ofNat {n : Nat} (word : n < 2 ^ 64) : Markup.natural? (ofNat n) = some n := by
  have scalar : (ofNat n).scalar? = some (.integer n) := by
    rw [← ofInt_natCast]
    exact scalar?_ofInt (by omega) (by omega)
  change (integral? (ofNat n)).bind _ = _
  rw [integral?, scalar, Option.bind_some, if_pos (Int.natCast_nonneg n)]
  rfl

theorem integer?_ofInt (n : Int64) : Markup.integer? (ofInt n.toInt) = some n.toInt := by
  have scalar := scalar?_ofInt n.le_toInt (Int.lt_trans n.toInt_lt (by decide))
  have below : n.toInt < (1 <<< 63 : Nat) := n.toInt_lt
  change (integral? (ofInt n.toInt)).bind _ = _
  rw [integral?, scalar, Option.bind_some, if_pos below]

theorem word32?_ofNat (n : UInt32) : Markup.word32? (ofNat n.toNat) = some n := by
  have word : n.toNat < 2 ^ 64 := Nat.lt_trans n.toNat_lt (by decide)
  have below : n.toNat < 1 <<< 32 := n.toNat_lt
  rw [Markup.word32?, natural?_ofNat word, Option.bind_some, if_pos below, UInt32.ofNat_toNat]

/-- An index is read back from the key that it is written as. -/
theorem index?_toDigits {n : Nat} (word : n < 2 ^ 64) :
    index? (String.ofList (Nat.toDigits 10 n)) = some n := by
  have some : (Nat.toDigits 10 n).isEmpty = false := by
    rw [List.isEmpty_eq_false_iff]
    exact Nat.toDigits_ne_nil
  have all : (Nat.toDigits 10 n).all Char.isDigit = true :=
    List.all_eq_true.2 fun c => isDigit_of_mem_toDigits
  have short : ((Nat.toDigits 10 n).head? == Option.some '0' && Nat.toDigits 10 n != ['0']) =
      false := by
    cases n with
    | zero => rfl
    | succ n =>
        rw [beq_eq_false_iff_ne.2 (head_toDigits_ne_zero (Nat.succ_pos n)), Bool.false_and]
  have fits : decide (1 <<< 64 ≤ n) = false := decide_eq_false (Nat.not_le.2 word)
  rw [index?, String.toList_ofList, Nat.ofDigitChars_ten_toDigits, some, all, short, fits]
  rfl

/-! ### Trees that are read as what they were written for -/

/-- A tree that a thing is read from, by itself and from its text. -/
structure Keeps {α : Type} (read : Json → Option α) (tree : Json) (x : α) : Prop where
  plain : tree.Plain
  reads : read tree = some x

variable {α : Type}

theorem keeps_text (s : String) : Keeps Markup.text? (ofText s) s :=
  ⟨plain_ofText s, rfl⟩

theorem keeps_natural {n : Nat} (word : n < 2 ^ 64) : Keeps Markup.natural? (ofNat n) n :=
  ⟨ofInt_natCast n ▸ plain_ofInt n, natural?_ofNat word⟩

theorem keeps_word32 (n : UInt32) : Keeps Markup.word32? (ofNat n.toNat) n :=
  ⟨ofInt_natCast n.toNat ▸ plain_ofInt n.toNat, word32?_ofNat n⟩

/-- What is read one by one is read together. -/
theorem mapM_of_reads {σ τ : Type} {read : σ → Option τ} {write : α → σ} {what : α → τ}
    {xs : List α} (reads : ∀ x ∈ xs, read (write x) = some (what x)) :
    (xs.map write).mapM read = some (xs.map what) := by
  induction xs with
  | nil => rfl
  | cons x rest ih =>
      have others := ih fun y member => reads y (List.mem_cons_of_mem _ member)
      rw [List.map_cons, List.mapM_cons, reads x (List.mem_cons_self ..), others]
      rfl

theorem keeps_list {read : Json → Option α} {write : α → Json} {xs : List α}
    (keeps : ∀ x ∈ xs, Keeps read (write x) x) :
    Keeps (Markup.listOf? read) (.array (xs.map write)) xs where
  plain := plain_array (List.forall_mem_map.2 fun x member => (keeps x member).plain)
  reads := by
    change (xs.map write).mapM read = some xs
    rw [mapM_of_reads fun x member => (keeps x member).reads, List.map_id']

/-- A record whose fields have different names has each of them. -/
theorem fields?_object {names : List String} {members : List (String × Json)}
    (named : members.map Prod.fst = names) (distinct : names.Nodup) :
    Markup.fields? names (Json.object members) =
      some (members.map fun member => some member.2) := by
  subst named
  refine mapM_of_reads fun member inside => ?_
  have single : members.filter (fun other => other.1 == member.1) = [member] := by
    obtain ⟨front, rest, rfl⟩ := List.append_of_mem inside
    rw [List.map_append, List.map_cons, List.nodup_append, List.nodup_cons] at distinct
    obtain ⟨-, ⟨behind, -⟩, before⟩ := distinct
    have none {others : List (String × Json)}
        (differ : ∀ other ∈ others, other.1 ≠ member.1) :
        others.filter (fun other => other.1 == member.1) = [] :=
      List.filter_eq_nil_iff.2 fun other found => by simpa using differ other found
    have self : (member.1 == member.1) = true := beq_self_eq_true _
    rw [List.filter_append, List.filter_cons, if_pos self, none, none, List.nil_append]
    · exact fun other found same => behind (same ▸ List.mem_map_of_mem found)
    · exact fun other found => before _ (List.mem_map_of_mem found) _ (List.mem_cons_self ..)
  rw [single]

/-- Entries are read back from the keys that they are written under. -/
theorem indexed?_object {write : α → Json} {entries : List (Nat × α)}
    (words : ∀ entry ∈ entries, entry.1 < 2 ^ 64) :
    Markup.indexed? (Json.object (entries.map fun (index, x) =>
        (String.ofList (Nat.toDigits 10 index), write x))) =
      some (entries.map fun (index, x) => (index, write x)) := by
  refine mapM_of_reads fun entry inside => ?_
  obtain ⟨index, x⟩ := entry
  dsimp only
  rw [index?_toDigits (words (index, x) inside), Option.map_some]

/-- What is made of the fields of a record in their order is made of the record. -/
theorem keeps_record {names : List String} {members : List (String × Json)} {x : α}
    {make : List (Option Json) → Option α} (named : members.map Prod.fst = names)
    (distinct : names.Nodup) (plain : ∀ member ∈ members, member.2.Plain)
    (makes : make (members.map fun member => some member.2) = some x) :
    Keeps (fun tree => (Markup.fields? names tree).bind make) (.object members) x where
  plain := plain_object plain
  reads := by rw [fields?_object named distinct, Option.bind_some, makes]

end Stencil.Json
