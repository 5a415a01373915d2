/-! JSON texts: the tokens they are made of and the trees that the tokens spell. Numbers stay
as they are written. A string with half of a surrogate pair stands for no text, which only
matters where somebody asks for it. -/

namespace Stencil

inductive Json where
  | null
  | bool (value : Bool)
  | number (lexeme : List Char)
  | text (content : Option String)
  | array (items : List Json)
  | object (members : List (String × Json))

namespace Json

instance : Inhabited Json := ⟨.null⟩

def ofText (s : String) : Json := .text (some s)

inductive Token where
  | openArray
  | closeArray
  | openObject
  | closeObject
  | colon
  | comma
  | null
  | bool (value : Bool)
  | number (lexeme : List Char)
  | text (content : Option String)
  deriving DecidableEq, Repr

mutual

def tokens : Json → List Token
  | .null => [.null]
  | .bool value => [.bool value]
  | .number lexeme => [.number lexeme]
  | .text content => [.text content]
  | .array items => .openArray :: itemTokens items ++ [.closeArray]
  | .object members => .openObject :: memberTokens members ++ [.closeObject]

def itemTokens : List Json → List Token
  | [] => []
  | [only] => only.tokens
  | item :: rest => item.tokens ++ .comma :: itemTokens rest

def memberTokens : List (String × Json) → List Token
  | [] => []
  | [(key, value)] => .text (some key) :: .colon :: value.tokens
  | (key, value) :: rest =>
      .text (some key) :: .colon :: value.tokens ++ .comma :: memberTokens rest

end

end Json

end Stencil
