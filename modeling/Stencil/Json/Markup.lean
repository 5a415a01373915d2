import Stencil.Json.Number
import Stencil.Json.Reader
import Stencil.Markup

/-! JSON trees as markup: every value shows its type. -/

namespace Stencil.Json

def scalar? : Json → Option Scalar
  | .null => some .null
  | .bool value => some (.bool value)
  | .number lexeme => number? lexeme
  | .text content => content.map .text
  | _ => none

def integral? (tree : Json) : Option Int :=
  match tree.scalar? with
  | some (.integer n) => some n
  | _ => none

/-- The number that a key is: digits without zeros before them. -/
def index? (key : String) : Option Nat :=
  let digits := key.toList
  let n := Nat.ofDigitChars 10 digits 0
  if digits.isEmpty || !digits.all Char.isDigit || (digits.head? == some '0' && digits != ['0'])
    || 1 <<< 64 ≤ n then none
  else some n

instance : Markup Json where
  scalar? := scalar?
  text?
    | .text content => content
    | _ => none
  bool?
    | .bool value => some value
    | _ => none
  natural? tree := (integral? tree).bind fun n => if 0 ≤ n then some n.toNat else none
  integer? tree := (integral? tree).bind fun n => if n < (1 <<< 63 : Nat) then some n else none
  float? tree :=
    match tree.scalar? with
    | some (.integer n) => some (.ofRatio (n < 0) n.natAbs 1)
    | some (.float x) => some x
    | _ => none
  items?
    | .array items => some items
    | _ => none
  members?
    | .object members => some members
    | _ => none
  fieldsInOrder?
    | .array items => some items
    | _ => none
  indexed?
    | .object members => members.mapM fun (key, member) => (index? key).map (·, member)
    | _ => none
  isLeftOut?
    | .null => some true
    | _ => some false
  bareCase?
    | .text name => name
    | .object [(name, .null)] => some name
    | _ => none
  caseWith?
    | .object [(name, content)] => some (name, content)
    | _ => none

end Stencil.Json
