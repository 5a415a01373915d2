import Stencil.Decimal.Notation
import Stencil.Error
import Stencil.Value.Basic

/-! Typed data, which describes itself part by part, and the values it becomes. -/

namespace Stencil

/-- What one piece of typed data describes itself as. A description may fail half-way. -/
inductive Datum where
  | unit
  | bool (value : Bool)
  | text (content : String)
  | integer (value : Int)
  | float (value : Binary64)
  | char (value : Char)
  | none
  | some (content : Datum)
  | bytes (content : List Nat)
  | sequence (items : List Datum)
  | mapping (entries : List (Datum × Datum))
  | object (fields : List (String × Datum))
  /-- A case without content. -/
  | bareCase (name : String)
  | caseOf (name : String) (content : Datum)
  | failure (reason : String)

/-- The position that a reason may end with. -/
structure ReasonPosition where
  line : Nat
  column : Nat
  deriving DecidableEq, Repr

namespace ReasonPosition

private def stripEnd? (suffix text : List Char) : Option (List Char) :=
  if suffix.reverse.isPrefixOf text.reverse then some (text.take (text.length - suffix.length))
  else .none

private def numberAtEnd? (text : List Char) : Option (List Char × Nat) :=
  let digits := (text.reverse.takeWhile Char.isDigit).reverse
  let number := Nat.ofDigitChars 10 digits 0
  if digits.isEmpty || 1 <<< 64 ≤ number then .none
  else some (text.take (text.length - digits.length), number)

def lineMark : List Char := " at line ".toList

def columnMark : List Char := " column ".toList

/-- A reason that ends with a position, without it. -/
def take? (reason : List Char) : Option (List Char × ReasonPosition) := do
  let (reason, column) ← numberAtEnd? reason
  let reason ← stripEnd? columnMark reason
  let (reason, line) ← numberAtEnd? reason
  let reason ← stripEnd? lineMark reason
  return (reason, ⟨line, column⟩)

/-- A reason with its position in plain numbers. Line zero is no position. -/
def normalize (reason : String) : String :=
  match take? reason.toList with
  | .none => reason
  | some (bare, position) =>
      if position.line = 0 then String.ofList bare
      else String.ofList (bare ++ lineMark ++ Nat.toDigits 10 position.line ++ columnMark
        ++ Nat.toDigits 10 position.column)

end ReasonPosition

namespace Datum

private def refuse {α : Type} (reason : String) : Except FillError α := .error (.serialize reason)

/-- Integers that a word can hold, signed or not. -/
def ofInteger (n : Int) : Except FillError Value :=
  if -(1 <<< 63 : Nat) ≤ n ∧ n < (1 <<< 64 : Nat) then .ok (Value.ofInteger n)
  else refuse "number out of range"

/-- The text of what can be a key. -/
def key : Datum → Except FillError String
  | bool true => .ok "true"
  | bool false => .ok "false"
  | text content => .ok content
  | integer n => .ok (toString n)
  | float x =>
      if x.isFinite then .ok (String.ofList (Notation.data.write x))
      else refuse "float key must be finite (got NaN or +/-inf)"
  | char c => .ok (String.singleton c)
  | bareCase name => .ok name
  | failure reason => refuse (ReasonPosition.normalize reason)
  | _ => refuse "key must be a string"

mutual

/-- Entries go by their keys; numbers that are not finite are null; a case with content is a
mapping with one entry. -/
def toValue : Datum → Except FillError Value
  | unit => .ok .null
  | bool value => .ok (.bool value)
  | text content => .ok (.text content)
  | integer n => ofInteger n
  | float x => .ok (if x.isFinite then .float x else .null)
  | char c => .ok (.text (String.singleton c))
  | none => .ok .null
  | some content => content.toValue
  | bytes content => .ok (.sequence (content.map fun n => .int (Int64.ofNat n)))
  | sequence items => (itemValues items).map .sequence
  | mapping entries => (entryValues entries).map Value.ofEntries
  | object fields => (fieldValues fields).map Value.ofEntries
  | bareCase name => .ok (.text name)
  | caseOf name content => content.toValue.map fun value => .mapping [(name, value)]
  | failure reason => refuse (ReasonPosition.normalize reason)

def itemValues : List Datum → Except FillError (List Value)
  | [] => .ok []
  | item :: rest => do
      let value ← item.toValue
      let values ← itemValues rest
      return value :: values

def entryValues : List (Datum × Datum) → Except FillError (List (String × Value))
  | [] => .ok []
  | (keyDatum, content) :: rest => do
      let name ← keyDatum.key
      let value ← content.toValue
      let values ← entryValues rest
      return (name, value) :: values

def fieldValues : List (String × Datum) → Except FillError (List (String × Value))
  | [] => .ok []
  | (name, content) :: rest => do
      let value ← content.toValue
      let values ← fieldValues rest
      return (name, value) :: values

end

end Datum

end Stencil
