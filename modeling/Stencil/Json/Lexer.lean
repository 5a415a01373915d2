import Stencil.Json.Basic
import Stencil.Text.Hex

/-! Cutting a JSON text into tokens. -/

namespace Stencil.Json

/-- The four characters that may stand between tokens. -/
def isBlank (c : Char) : Bool := c == ' ' || c == '\n' || c == '\t' || c == '\x0d'

/-- A string is read as code units: characters, and surrogates that may turn out to be single. -/
inductive Unit16 where
  | char (c : Char)
  | surrogate (code : Nat)
  deriving DecidableEq, Repr

def unitOf (code : Nat) : Unit16 :=
  if 0xd800 ≤ code && code ≤ 0xdfff then .surrogate code else .char (Char.ofNat code)

def simpleEscape? : Char → Option Char
  | '"' => some '"'
  | '\\' => some '\\'
  | '/' => some '/'
  | 'b' => some '\x08'
  | 'f' => some '\x0c'
  | 'n' => some '\n'
  | 'r' => some '\x0d'
  | 't' => some '\t'
  | _ => none

/-- The rest of a string behind its opening quote, and the text behind the closing one. -/
def takeUnits? : List Char → Option (List Unit16 × List Char)
  | [] => none
  | '"' :: rest => some ([], rest)
  | '\\' :: 'u' :: a :: b :: c :: d :: rest =>
      match Text.hexDigit? a, Text.hexDigit? b, Text.hexDigit? c, Text.hexDigit? d with
      | some a, some b, some c, some d =>
          (takeUnits? rest).map fun (units, rest) =>
            (unitOf (((a * 16 + b) * 16 + c) * 16 + d) :: units, rest)
      | _, _, _, _ => none
  | '\\' :: mark :: rest =>
      match simpleEscape? mark with
      | some c => (takeUnits? rest).map fun (units, rest) => (.char c :: units, rest)
      | none => none
  | c :: rest =>
      if c.toNat < 0x20 || c = '\\' then none
      else (takeUnits? rest).map fun (units, rest) => (.char c :: units, rest)

/-- The characters of a string. A high surrogate and a low one are one character; none where
one of them is missing. -/
def pairUp? : List Unit16 → Option (List Char)
  | [] => some []
  | .char c :: rest => (pairUp? rest).map (c :: ·)
  | .surrogate high :: .surrogate low :: rest =>
      if high < 0xdc00 && 0xdc00 ≤ low then
        (pairUp? rest).map (Char.ofNat (0x10000 + (high - 0xd800) * 0x400 + (low - 0xdc00)) :: ·)
      else none
  | .surrogate _ :: _ => none

/-- One or more digits and the text behind them. -/
def takeDigits? (input : List Char) : Option (List Char × List Char) :=
  let digits := input.takeWhile Char.isDigit
  if digits.isEmpty then none else some (digits, input.drop digits.length)

def takeWhole? : List Char → Option (List Char × List Char)
  | '0' :: rest => if rest.head?.any Char.isDigit then none else some (['0'], rest)
  | input => takeDigits? input

def takeFraction? : List Char → Option (List Char × List Char)
  | '.' :: rest => (takeDigits? rest).map fun (digits, rest) => ('.' :: digits, rest)
  | rest => some ([], rest)

def takeExponent? : List Char → Option (List Char × List Char)
  | mark :: rest =>
      if mark = 'e' || mark = 'E' then
        match rest with
        | sign :: behind =>
            if sign = '+' || sign = '-' then
              (takeDigits? behind).map fun (digits, rest) => (mark :: sign :: digits, rest)
            else (takeDigits? rest).map fun (digits, rest) => (mark :: digits, rest)
        | [] => none
      else some ([], mark :: rest)
  | [] => some ([], [])

/-- The number that a text starts with, as it is written. -/
def takeNumber? (input : List Char) : Option (List Char × List Char) := do
  let (sign, input) := match input with
    | '-' :: rest => (['-'], rest)
    | rest => ([], rest)
  let (whole, input) ← takeWhole? input
  let (fraction, input) ← takeFraction? input
  let (exponent, input) ← takeExponent? input
  return (sign ++ whole ++ fraction ++ exponent, input)

/-- The token that a text starts with. -/
def takeToken? : List Char → Option (Token × List Char)
  | '[' :: rest => some (.openArray, rest)
  | ']' :: rest => some (.closeArray, rest)
  | '\x7b' :: rest => some (.openObject, rest)
  | '\x7d' :: rest => some (.closeObject, rest)
  | ':' :: rest => some (.colon, rest)
  | ',' :: rest => some (.comma, rest)
  | 'n' :: 'u' :: 'l' :: 'l' :: rest => some (.null, rest)
  | 't' :: 'r' :: 'u' :: 'e' :: rest => some (.bool true, rest)
  | 'f' :: 'a' :: 'l' :: 's' :: 'e' :: rest => some (.bool false, rest)
  | '"' :: rest =>
      (takeUnits? rest).map fun (units, rest) =>
        (.text ((pairUp? units).map String.ofList), rest)
  | input => (takeNumber? input).map fun (lexeme, rest) => (.number lexeme, rest)

/-- As many steps as there are characters are enough: every token has at least one. -/
def lexFrom : Nat → List Char → Option (List Token)
  | 0, input => if input.isEmpty then some [] else none
  | steps + 1, input =>
      match input.dropWhile isBlank with
      | [] => some []
      | c :: rest => do
          let (token, rest) ← takeToken? (c :: rest)
          let others ← lexFrom steps rest
          return token :: others

def lex? (input : List Char) : Option (List Token) := lexFrom input.length input

end Stencil.Json
