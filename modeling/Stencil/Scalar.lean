import Stencil.Value.Basic

/-! What a single word or number of a data format stands for. -/

namespace Stencil

inductive Scalar where
  | null
  | bool (value : Bool)
  | integer (value : Int)
  | float (value : Binary64)
  | text (content : String)
  deriving DecidableEq

/-- Numbers that are not finite become null. -/
def Scalar.toValue : Scalar → Value
  | null => .null
  | bool value => .bool value
  | integer n => .ofInteger n
  | float x => if x.isFinite then .float x else .null
  | text content => .text content

end Stencil
