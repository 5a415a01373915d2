/-! How the rows and columns of a sheet are numbered. A sheet numbers them in machine words, so the
number behind the last one is zero again. Beside that there is the counting without an end, in which
nothing is ever overwritten. -/

namespace Stencil

inductive Counting where
  | words
  | endless
  deriving DecidableEq, Repr

namespace Counting

/-- The number that a sum comes to. -/
def wrap : Counting → Nat → Nat
  | words, n => n % UInt64.size
  | endless, n => n

@[simp] theorem wrap_endless (n : Nat) : wrap .endless n = n := rfl

end Counting

end Stencil
