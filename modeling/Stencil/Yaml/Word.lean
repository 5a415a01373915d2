import Stencil.Decimal.Reading
import Stencil.Scalar
import Stencil.Yaml.Quoted

/-! What a scalar without quotes stands for. -/

namespace Stencil.Yaml

def isNullWord (word : String) : Bool :=
  word == "null" || word == "Null" || word == "NULL" || word == "~"

def boolOf? (word : String) : Option Bool :=
  if word = "true" || word = "True" || word = "TRUE" then some true
  else if word = "false" || word = "False" || word = "FALSE" then some false
  else none

/-- An integer as it is written. Zero may have a minus too. -/
structure WrittenInteger where
  negative : Bool
  magnitude : Nat
  deriving DecidableEq, Repr

private def inBase? (base : Nat) (digits : List Char) : Option Nat :=
  if digits.isEmpty then none
  else digits.foldl (fun n c => n.bind fun n => (Text.hexDigit? c).bind fun d =>
    if d < base then some (base * n + d) else none) (some 0)

/-- Digits with zeros before them are no number. -/
private def isPadded : List Char → Bool
  | '0' :: rest => !rest.isEmpty && rest.all Char.isDigit
  | _ => false

private def magnitude? : List Char → Option Nat
  | '0' :: 'x' :: digits => inBase? 16 digits
  | '0' :: 'o' :: digits => inBase? 8 digits
  | '0' :: 'b' :: digits => inBase? 2 digits
  | digits => if isPadded digits then none else inBase? 10 digits

def WrittenInteger.ofWord? (word : String) : Option WrittenInteger :=
  let (negative, unsigned) := Numeral.takeSign word.toList
  (magnitude? unsigned).map (⟨negative, ·⟩)

/-- The unsigned integer of at most 64 bits that a word is. -/
def naturalOf? (word : String) : Option Nat := do
  let ⟨negative, n⟩ ← WrittenInteger.ofWord? word
  if negative || 1 <<< 64 ≤ n then none else some n

/-- The signed integer of at most 64 bits that a word is. -/
def integerOf? (word : String) : Option Int := do
  let ⟨negative, n⟩ ← WrittenInteger.ofWord? word
  if negative then if n ≤ 1 <<< 63 then some (-(n : Int)) else none
  else if n < 1 <<< 63 then some (n : Int) else none

private def isInfinityWord (word : String) : Bool :=
  word == ".inf" || word == ".Inf" || word == ".INF"

/-- The floating point number that a word is. Infinity has a word of its own and no digits. -/
def floatOf? (word : String) : Option Binary64 :=
  let (negative, unsigned) := Numeral.takeSign word.toList
  if isInfinityWord (String.ofList unsigned) then some (.infinity negative)
  else if word = ".nan" || word = ".NaN" || word = ".NAN" then some .nan
  else if unsigned.head?.any fun c => c == '+' || c == '-' then none
  else
    ((Numeral.ofText? word.toList).map Numeral.toBinary64).bind fun x =>
      if x.isFinite then some x else none

/-- What a word that is an integer stands for, none where it is wider than 64 bits but not than
128. Integers wider than that are no integers at all. -/
def integerScalar? (word : String) : Option (Option Scalar) := do
  let ⟨negative, n⟩ ← WrittenInteger.ofWord? word
  let bits := if negative then 1 <<< 127 else 1 <<< 128 - 1
  if n ≤ bits then
    some (if negative then if n ≤ 1 <<< 63 then some (.integer (-(n : Int))) else none
      else if n < 1 <<< 64 then some (.integer n) else none)
  else none

/-- What a word stands for, none where it is an integer that nothing can hold. -/
def wordScalar? (word : String) : Option Scalar :=
  if word.isEmpty || isNullWord word then some .null
  else match boolOf? word with
    | some b => some (.bool b)
    | none =>
        match integerScalar? word with
        | some held => held
        | none =>
            let unsigned := (Numeral.takeSign word.toList).2
            match if isPadded unsigned then none else floatOf? word with
            | some x => some (.float x)
            | none => some (.text word)

end Stencil.Yaml
