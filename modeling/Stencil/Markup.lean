import Stencil.Scalar

/-! Trees of data formats that typed things are read from, and records in them. -/

namespace Stencil

/-- What a tree can be read as. Each function has no answer for a tree of another kind. -/
class Markup (τ : Type) where
  /-- What a scalar stands for when nobody expects a type. -/
  scalar? : τ → Option Scalar
  text? : τ → Option String
  bool? : τ → Option Bool
  /-- An unsigned integer of at most 64 bits. -/
  natural? : τ → Option Nat
  /-- A signed integer of at most 64 bits. -/
  integer? : τ → Option Int
  float? : τ → Option Binary64
  items? : τ → Option (List τ)
  members? : τ → Option (List (String × τ))
  /-- The fields of a record that is written without their names. -/
  fieldsInOrder? : τ → Option (List τ)
  /-- Entries whose keys are unsigned integers of at most 64 bits. -/
  indexed? : τ → Option (List (Nat × τ))
  /-- Whether a thing that need not be there is left out. -/
  isLeftOut? : τ → Option Bool
  /-- The name of a case without content. -/
  bareCase? : τ → Option String
  /-- A case with its content. -/
  caseWith? : τ → Option (String × τ)

namespace Markup

variable {τ : Type} [Markup τ] {α : Type}

/-- The fields of a record: under their names, each once at most and others passed over, or in
order, with no more of them than there are names. -/
def fields? (names : List String) (tree : τ) : Option (List (Option τ)) :=
  match fieldsInOrder? tree with
  | some items =>
      if items.length ≤ names.length then
        some (items.map some ++ List.replicate (names.length - items.length) none)
      else none
  | none => do
      let members ← members? tree
      names.mapM fun name =>
        match members.filter fun member => member.1 == name with
        | [] => some none
        | [(_, field)] => some (some field)
        | _ => none

def orDefault (default : α) (read : τ → Option α) : Option τ → Option α
  | none => some default
  | some field => read field

def listOf? (read : τ → Option α) (tree : τ) : Option (List α) :=
  (items? tree).bind fun items => items.mapM read

/-- A thing that need not be there. -/
def maybe? (read : τ → Option α) (tree : τ) : Option (Option α) := do
  if ← isLeftOut? tree then return none else return some (← read tree)

/-- An unsigned integer of at most 32 bits. -/
def word32? (tree : τ) : Option UInt32 :=
  (natural? tree).bind fun n => if n < 1 <<< 32 then some (UInt32.ofNat n) else none

end Markup

end Stencil
