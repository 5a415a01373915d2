import Mathlib
import Stencil.Proofs.Decimal.Shortest
import Stencil.Value.Datum
import Stencil.Value.Render

/-! Typed data keeps its structure and its numbers as it becomes values. Only integers beyond the
signed words are rounded. -/

namespace Stencil

/-! ### Entries -/

theorem keys_insertEntry {α : Type} (key : String) (value : α) (entries : List (String × α)) :
    (insertEntry key value entries).map Prod.fst =
      if key ∈ entries.map Prod.fst then entries.map Prod.fst
      else entries.map Prod.fst ++ [key] := by
  induction entries with
  | nil => rfl
  | cons head rest ih =>
      obtain ⟨k, v⟩ := head
      by_cases same : k = key
      · simp [insertEntry, same]
      · simp only [insertEntry, if_neg same, List.map_cons, ih, List.mem_cons, Ne.symm same, false_or]
        split <;> rfl

theorem entriesOf_concat {α : Type} (pairs : List (String × α)) (pair : String × α) :
    entriesOf (pairs ++ [pair]) = insertEntry pair.1 pair.2 (entriesOf pairs) :=
  List.foldl_concat ..

theorem eraseDups_concat (keys : List String) (key : String) :
    (keys ++ [key]).eraseDups =
      if key ∈ keys then keys.eraseDups else keys.eraseDups ++ [key] := by
  rw [List.eraseDups_append]
  by_cases known : key ∈ keys
  · simp [List.removeAll, known]
  · simp [List.removeAll, known, List.eraseDups_cons]

/-- Keys stand in the order in which they come first. -/
theorem keys_entriesOf {α : Type} (pairs : List (String × α)) :
    (entriesOf pairs).map Prod.fst = (pairs.map Prod.fst).eraseDups := by
  induction pairs using List.reverseRecOn with
  | nil => rfl
  | append_singleton pairs pair ih =>
      rw [entriesOf_concat, keys_insertEntry, ih, List.map_append, List.map_singleton,
        eraseDups_concat]
      simp only [List.mem_eraseDups]

/-- Under a key stands what comes last with it. -/
theorem atKey?_entriesOf {α : Type} (key : String) (pairs : List (String × α)) :
    atKey? key (entriesOf pairs) = atKey? key pairs.reverse := by
  induction pairs using List.reverseRecOn with
  | nil => rfl
  | append_singleton pairs pair ih =>
      obtain ⟨k, v⟩ := pair
      rw [entriesOf_concat, List.reverse_append, List.reverse_singleton, List.singleton_append,
        atKey?]
      by_cases same : k = key
      · rw [if_pos same, same, atKey?_insertEntry_self]
      · rw [if_neg same, atKey?_insertEntry_of_ne (Ne.symm same), ih]

/-! ### Integers -/

namespace Binary64

/-- The number just beyond the signed words. -/
def signedEnd : Binary64 := ⟨0x43E0000000000000⟩

theorem toRat_signedEnd : signedEnd.toRat = 2 ^ 63 := by
  have positive : signedEnd.isNegative = false := by decide
  have significand : signedEnd.significand = 2 ^ 52 := by decide
  have scale : signedEnd.scale = 11 := by decide
  rw [toRat_of_positive positive, significand, step, scale]
  norm_num

/-- A whole number beyond the signed words is written as another one that the same float is
nearest to. Its last two digits are zeros. -/
theorem exists_floatText {x : Binary64} {n : Nat} (beyond : 2 ^ 63 ≤ n) (nearest : x.IsNearest n) :
    ∃ m : Nat, floatText x = toString m ∧ 100 ∣ m ∧ x.IsNearest m := by
  have above : (2 : ℚ) ^ 63 ≤ x.toRat := by
    rw [← toRat_signedEnd]
    refine nearest.le (by decide) ?_
    rw [toRat_signedEnd]
    exact_mod_cast beyond
  have large : (10 : ℚ) ^ (16 + 2) ≤ x.toRat := le_trans (by norm_num) above
  obtain ⟨m, written, hundreds, reread⟩ := Notation.prose_write_of_large nearest.finite large
  exact ⟨m, congrArg String.ofList written, hundreds, reread⟩

end Binary64

/-! ### Data -/

namespace Datum

/-- Plain data. An integer is that of a signed or of an unsigned word. -/
inductive Plain : Datum → Prop
  | unit : Plain .unit
  | bool (b : Bool) : Plain (.bool b)
  | text (content : String) : Plain (.text content)
  | signed (n : Int64) : Plain (.integer n.toInt)
  | unsigned (n : UInt64) : Plain (.integer n.toNat)
  | none : Plain .none
  | some {content : Datum} (plain : Plain content) : Plain (.some content)
  | sequence {items : List Datum} (each : ∀ item ∈ items, Plain item) : Plain (.sequence items)
  | object {fields : List (String × Datum)} (each : ∀ field ∈ fields, Plain field.2) :
      Plain (.object fields)
  | mapping {fields : List (String × Datum)} (each : ∀ field ∈ fields, Plain field.2) :
      Plain (.mapping (fields.map fun field => (.text field.1, field.2)))

/-- What a piece of plain data becomes. -/
inductive Converts : Datum → Value → Prop
  | unit : Converts .unit .null
  | none : Converts .none .null
  | bool (b : Bool) : Converts (.bool b) (.bool b)
  | text (content : String) : Converts (.text content) (.text content)
  | some {content : Datum} {value : Value} (converts : Converts content value) :
      Converts (.some content) value
  | int {n : Int} {word : Int64} (same : word.toInt = n)
      (written : ∀ options format, (Value.int word).render options format = toString n) :
      Converts (.integer n) (.int word)
  /-- The nearest float, and the digits of a whole number that is rounded to it as well. -/
  | rounded {n m : Nat} {x : Binary64} (beyond : 2 ^ 63 ≤ n) (nearest : x.IsNearest n)
      (hundreds : 100 ∣ m) (reread : x.IsNearest m)
      (written : ∀ options format, (Value.float x).render options format = toString m) :
      Converts (.integer n) (.float x)
  | sequence {items : List Datum} {values : List Value}
      (each : List.Forall₂ Converts items values) : Converts (.sequence items) (.sequence values)
  /-- Keys in the order in which they come first, and under each what comes last with it. -/
  | object {fields : List (String × Datum)} {entries : List (String × Value)}
      (keys : entries.map Prod.fst = (fields.map Prod.fst).eraseDups)
      (last : ∀ key content value, atKey? key fields.reverse = .some content →
        atKey? key entries = .some value → Converts content value) :
      Converts (.object fields) (.mapping entries)
  | mapping {fields : List (String × Datum)} {value : Value}
      (converts : Converts (.object fields) value) :
      Converts (.mapping (fields.map fun field => (.text field.1, field.2))) value

theorem toValue_integer {n : Int} (low : -2 ^ 63 ≤ n) (high : n < 2 ^ 63) :
    (integer n).toValue = .ok (.int (Int64.ofInt n)) := by
  rw [toValue, ofInteger, if_pos (by simp only [Nat.one_shiftLeft]; omega), Value.ofInteger,
    if_pos (by simp only [Nat.one_shiftLeft]; omega)]

theorem toValue_integer_beyond {n : Nat} (beyond : 2 ^ 63 ≤ n) (high : n < 2 ^ 64) :
    (integer n).toValue = .ok (.float (.ofNat n)) := by
  have sign : decide ((n : Int) < 0) = false := decide_eq_false (by omega)
  rw [toValue, ofInteger, if_pos (by simp only [Nat.one_shiftLeft]; omega), Value.ofInteger,
    if_neg (by simp only [Nat.one_shiftLeft]; omega), sign, Int.natAbs_natCast, Binary64.ofNat]

/-- The greatest unsigned word. -/
theorem toValue_greatest :
    (integer 18446744073709551615).toValue = .ok (.float ⟨0x43F0000000000000⟩) := by
  have rounded : Binary64.ofNat 18446744073709551615 = ⟨0x43F0000000000000⟩ := by decide +kernel
  rw [← rounded]
  exact toValue_integer_beyond (n := 18446744073709551615) (by decide) (by decide)

theorem exists_integer {n : Int} (low : -2 ^ 63 ≤ n) (high : n < 2 ^ 64) :
    ∃ value, (integer n).toValue = .ok value ∧ Converts (.integer n) value := by
  by_cases within : n < 2 ^ 63
  · have same : (Int64.ofInt n).toInt = n := Int64.toInt_ofInt_of_le low within
    refine ⟨_, toValue_integer low within, .int same fun options format => ?_⟩
    rw [Value.render, intText, same]
  · obtain ⟨n, rfl⟩ := Int.eq_ofNat_of_zero_le (show 0 ≤ n by omega)
    have beyond : 2 ^ 63 ≤ n := by omega
    have nearest := Binary64.isNearest_ofNat (n := n) (by omega) (by omega)
    obtain ⟨m, written, hundreds, reread⟩ := Binary64.exists_floatText beyond nearest
    refine ⟨_, toValue_integer_beyond beyond (by omega), .rounded beyond nearest hundreds reread ?_⟩
    intro options format
    rw [Value.render, written]

theorem exists_items {items : List Datum}
    (each : ∀ item ∈ items, ∃ value, item.toValue = .ok value ∧ Converts item value) :
    ∃ values, itemValues items = .ok values ∧ List.Forall₂ Converts items values := by
  induction items with
  | nil => exact ⟨[], rfl, .nil⟩
  | cons item rest ih =>
      obtain ⟨value, first, converts⟩ := each item (List.mem_cons_self ..)
      obtain ⟨values, others, all⟩ := ih fun next member => each next (List.mem_cons_of_mem _ member)
      refine ⟨value :: values, ?_, .cons converts all⟩
      rw [itemValues, first, others]
      rfl

/-- A field and its value, under one key. -/
def FieldConverts (field : String × Datum) (entry : String × Value) : Prop :=
  entry.1 = field.1 ∧ Converts field.2 entry.2

theorem exists_fields {fields : List (String × Datum)}
    (each : ∀ field ∈ fields, ∃ value, field.2.toValue = .ok value ∧ Converts field.2 value) :
    ∃ pairs, fieldValues fields = .ok pairs ∧ List.Forall₂ FieldConverts fields pairs := by
  induction fields with
  | nil => exact ⟨[], rfl, .nil⟩
  | cons field rest ih =>
      obtain ⟨name, content⟩ := field
      obtain ⟨value, first, converts⟩ := each _ (List.mem_cons_self ..)
      obtain ⟨pairs, others, all⟩ := ih fun next member => each next (List.mem_cons_of_mem _ member)
      refine ⟨(name, value) :: pairs, ?_, .cons ⟨rfl, converts⟩ all⟩
      rw [fieldValues, first, others]
      rfl

/-- Keys that are texts are names of fields. -/
theorem entryValues_texts (fields : List (String × Datum)) :
    entryValues (fields.map fun field => (.text field.1, field.2)) = fieldValues fields := by
  induction fields with
  | nil => rfl
  | cons field rest ih =>
      obtain ⟨name, content⟩ := field
      rw [List.map_cons, entryValues, ih, fieldValues]
      rfl

theorem keys_of_fieldConverts {fields : List (String × Datum)} {pairs : List (String × Value)}
    (all : List.Forall₂ FieldConverts fields pairs) :
    pairs.map Prod.fst = fields.map Prod.fst := by
  induction all with
  | nil => rfl
  | cons here _ ih => rw [List.map_cons, List.map_cons, here.1, ih]

theorem converts_of_atKey? {fields : List (String × Datum)} {pairs : List (String × Value)}
    (all : List.Forall₂ FieldConverts fields pairs) {key : String} {content : Datum} {value : Value}
    (field : atKey? key fields = .some content) (entry : atKey? key pairs = .some value) :
    Converts content value := by
  induction all with
  | nil => cases field
  | @cons first second _ _ here _ ih =>
      rw [atKey?] at field entry
      rw [here.1] at entry
      by_cases same : first.1 = key
      · rw [if_pos same] at field entry
        cases field
        cases entry
        exact here.2
      · rw [if_neg same] at field entry
        exact ih field entry

theorem converts_object {fields : List (String × Datum)} {pairs : List (String × Value)}
    (all : List.Forall₂ FieldConverts fields pairs) :
    Converts (.object fields) (Value.ofEntries pairs) := by
  refine .object ?_ fun key content value field entry => ?_
  · rw [keys_entriesOf, keys_of_fieldConverts all]
  · rw [atKey?_entriesOf] at entry
    exact converts_of_atKey? (List.forall₂_reverse_iff.2 all) field entry

/-- Plain data always becomes a value, of the same structure at any depth. Integers up to the end
of the signed words keep all their digits. -/
theorem toValue_converts {d : Datum} (plain : Plain d) :
    ∃ value, d.toValue = .ok value ∧ Converts d value := by
  induction plain with
  | unit => exact ⟨_, rfl, .unit⟩
  | bool b => exact ⟨_, rfl, .bool b⟩
  | text content => exact ⟨_, rfl, .text content⟩
  | signed n =>
      exact exists_integer (Int64.le_toInt n) (lt_trans (Int64.toInt_lt n) (by decide))
  | unsigned n =>
      have bound := n.toNat_lt
      exact exists_integer (by omega) (by omega)
  | none => exact ⟨_, rfl, .none⟩
  | some _ ih =>
      obtain ⟨value, becomes, converts⟩ := ih
      exact ⟨value, becomes, .some converts⟩
  | sequence _ each =>
      obtain ⟨values, become, converts⟩ := exists_items each
      exact ⟨.sequence values, by rw [toValue, become]; rfl, .sequence converts⟩
  | object _ each =>
      obtain ⟨pairs, become, all⟩ := exists_fields each
      exact ⟨.ofEntries pairs, by rw [toValue, become]; rfl, converts_object all⟩
  | mapping _ each =>
      obtain ⟨pairs, become, all⟩ := exists_fields each
      refine ⟨.ofEntries pairs, ?_, .mapping (converts_object all)⟩
      rw [toValue, entryValues_texts, become]
      rfl

/-- An account that counts twice, first beyond the signed words. -/
def account : Datum :=
  .object [("count", .integer 18446744073709551615), ("owner", .some (.text "Ann")),
    ("lines", .sequence [.unit, .mapping [(.text "paid", .bool true), (.text "paid", .none)]]),
    ("limit", .integer 18446744073709551615), ("count", .integer (-9223372036854775808))]

def accountValue : Value :=
  .mapping [("count", .int (-9223372036854775808)), ("owner", .text "Ann"),
    ("lines", .sequence [.null, .mapping [("paid", .null)]]),
    ("limit", .float ⟨0x43F0000000000000⟩)]

theorem plain_account : Plain account := by
  have greatest : Plain (.integer 18446744073709551615) := .unsigned 18446744073709551615
  have least : Plain (.integer (-9223372036854775808)) := .signed (-9223372036854775808)
  have payments : ∀ field ∈ [("paid", bool true), ("paid", none)], Plain field.2 :=
    List.forall_mem_cons.2 ⟨.bool true, List.forall_mem_singleton.2 .none⟩
  have line : Plain (.mapping [(.text "paid", .bool true), (.text "paid", .none)]) :=
    .mapping payments
  refine .object ?_
  simp only [List.forall_mem_cons]
  refine ⟨greatest, .some (.text "Ann"), .sequence ?_, greatest, least, by simp⟩
  exact List.forall_mem_cons.2 ⟨.unit, List.forall_mem_singleton.2 line⟩

/-- The key that comes twice keeps its first place and its last value, and the limit is rounded. -/
theorem account_converts :
    Plain account ∧ account.toValue = .ok accountValue ∧ Converts account accountValue := by
  have known : account.toValue = .ok accountValue := by
    have least : (integer (-9223372036854775808)).toValue = .ok (.int (-9223372036854775808)) :=
      toValue_integer (by decide) (by decide)
    rw [account, toValue, fieldValues, fieldValues, fieldValues, fieldValues, fieldValues,
      toValue_greatest, least]
    rfl
  obtain ⟨value, becomes, converts⟩ := toValue_converts plain_account
  have same : value = accountValue := Except.ok.inj (becomes.symm.trans known)
  exact ⟨plain_account, known, same ▸ converts⟩

/-- The greatest unsigned word does not keep its digits. -/
theorem greatest_rounded :
    Plain (.integer 18446744073709551615) ∧
      (∃ value, (integer 18446744073709551615).toValue = .ok value ∧
        ∀ options format, value.render options format = "18446744073709552000") ∧
      ¬∃ value, (integer 18446744073709551615).toValue = .ok value ∧
        ∀ options format, value.render options format = toString (18446744073709551615 : Int) := by
  have written : floatText ⟨0x43F0000000000000⟩ = "18446744073709552000" := by decide +kernel
  have shown : ∀ options format,
      (Value.float ⟨0x43F0000000000000⟩).render options format = "18446744073709552000" := by
    intro options format
    rw [Value.render, written]
  refine ⟨.unsigned 18446744073709551615, ⟨_, toValue_greatest, shown⟩, ?_⟩
  rintro ⟨value, becomes, exact⟩
  rw [toValue_greatest] at becomes
  cases becomes
  have digits := (shown {} .none).symm.trans (exact {} .none)
  revert digits
  decide +kernel

end Datum

end Stencil
