import Stencil.Placeholder.Scan

/-! How a text relates to the placeholders of one kind, judged by their number and the sum of
their lengths. -/

namespace Stencil

structure Classification where
  isMatch : Bool
  /-- Nothing but placeholders. -/
  patternOnly : Bool
  matchCount : Nat
  deriving DecidableEq, Repr

/-- A text that is one placeholder and nothing else can keep the type of its value. -/
def Classification.isSinglePlaceholder (c : Classification) : Bool :=
  c.patternOnly && c.matchCount == 1

def classify (kind : PlaceholderKind) (text : String) : Classification :=
  let found := occurrences kind text
  let covered := Text.bytes (found.flatMap fun o => o.placeholder.text)
  { isMatch := 0 < found.length
    patternOnly := 0 < found.length && covered == Text.bytes text.toList
    matchCount := found.length }

end Stencil
