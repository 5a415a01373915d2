import Stencil.Value.Basic

/-! When two values count as equal. Floats are compared up to two representable steps,
mappings without regard to order, records by identity. -/

namespace Stencil.Value

mutual

def same : Value → Value → Bool
  | .null, .null => true
  | .bool a, .bool b => a == b
  | .int a, .int b => a == b
  | .float a, .float b => a.near b
  | .text a, .text b => a == b
  | .date a, .date b => a == b
  | .sequence a, .sequence b => sameItems a b
  | .mapping a, .mapping b => a.length == b.length && sameEntries a b
  | .record a _ _ _ _, .record b _ _ _ _ => a == b
  | _, _ => false

def sameItems : List Value → List Value → Bool
  | [], [] => true
  | a :: restA, b :: restB => a.same b && sameItems restA restB
  | _, _ => false

/-- Whether every entry of the first list has an equal value under its key in the second. -/
def sameEntries : List (String × Value) → List (String × Value) → Bool
  | [], _ => true
  | (key, a) :: rest, others =>
      (match atKey? key others with
        | some b => a.same b
        | none => false) && sameEntries rest others

end

end Stencil.Value
