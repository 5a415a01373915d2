import Stencil.Decimal.Notation
import Stencil.Json.Basic

/-! Writing JSON without blanks. Only quotes, backslashes and control characters are escaped. -/

namespace Stencil.Json

def unicodeEscape (c : Char) : List Char :=
  ['\\', 'u', '0', '0', Nat.digitChar (c.toNat / 16), Nat.digitChar (c.toNat % 16)]

def escape (c : Char) : List Char :=
  match c with
  | '"' => ['\\', '"']
  | '\\' => ['\\', '\\']
  | '\x08' => ['\\', 'b']
  | '\x0c' => ['\\', 'f']
  | '\n' => ['\\', 'n']
  | '\x0d' => ['\\', 'r']
  | '\t' => ['\\', 't']
  | c => if c.toNat < 0x20 then unicodeEscape c else [c]

def quoted (s : String) : List Char := '"' :: s.toList.flatMap escape ++ ['"']

def Token.write : Token → List Char
  | .openArray => ['[']
  | .closeArray => [']']
  | .openObject => ['\x7b']
  | .closeObject => ['\x7d']
  | .colon => [':']
  | .comma => [',']
  | .null => ['n', 'u', 'l', 'l']
  | .bool true => ['t', 'r', 'u', 'e']
  | .bool false => ['f', 'a', 'l', 's', 'e']
  | .number lexeme => lexeme
  | .text content => quoted (content.getD "")

def write (tree : Json) : String := String.ofList (tree.tokens.flatMap Token.write)

def ofNat (n : Nat) : Json := .number (Nat.toDigits 10 n)

def ofInt (n : Int) : Json :=
  .number (if n < 0 then '-' :: Nat.toDigits 10 n.natAbs else Nat.toDigits 10 n.natAbs)

/-- Numbers that are not finite are null. -/
def ofFloat (x : Binary64) : Json :=
  if x.isFinite then .number (Notation.data.write x) else .null

end Stencil.Json
