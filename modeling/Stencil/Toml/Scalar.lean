import Stencil.Decimal.Reading
import Stencil.Text.Blank
import Stencil.Text.Hex
import Stencil.Toml.Basic

/-! Words of TOML: keys, strings, and scalars without quotes. -/

namespace Stencil.Toml

def skipBlanks (input : List Char) : List Char := input.dropWhile Text.isSpaceOrTab

/-- Characters that may not stand in comments and strings. -/
def isControl (c : Char) : Bool := (c.toNat < 0x20 && c != '\t') || c == '\x7f'

/-- The text behind a line end. -/
def newline? : List Char → Option (List Char)
  | '\n' :: rest => some rest
  | '\x0d' :: '\n' :: rest => some rest
  | _ => none

def isBareKeyChar (c : Char) : Bool := c.isAlphanum || c == '-' || c == '_'

/-- The character with a code, none for surrogates and codes above the last. -/
def charOf? (code : Nat) : Option Char :=
  if code < 0xd800 || (0xdfff < code && code < 0x110000) then some (Char.ofNat code) else none

private def simpleEscape? : Char → Option Char
  | 'b' => some '\x08'
  | 't' => some '\t'
  | 'n' => some '\n'
  | 'f' => some '\x0c'
  | 'r' => some '\x0d'
  | 'e' => some '\x1b'
  | '"' => some '"'
  | '\\' => some '\\'
  | _ => none

/-- What stands behind a backslash, and the length of it. -/
def escape? : List Char → Option (Char × Nat)
  | [] => none
  | mark :: rest =>
      match simpleEscape? mark with
      | some c => some (c, 1)
      | none =>
          let width := Text.escapeWidth mark
          let digits := rest.take width
          if width = 0 || digits.length != width then none
          else ((Text.hexNumber? digits).bind charOf?).map (·, width + 1)

/-- The rest of a string in double quotes; `skip` characters were read with an escape. -/
def takeBasic? : (skip : Nat) → List Char → Option (List Char × List Char)
  | _, [] => none
  | skip + 1, _ :: rest => takeBasic? skip rest
  | 0, '"' :: rest => some ([], rest)
  | 0, '\\' :: rest => do
      let (c, length) ← escape? rest
      let (content, rest) ← takeBasic? length rest
      return (c :: content, rest)
  | 0, c :: rest =>
      if isControl c then none
      else (takeBasic? 0 rest).map fun (content, rest) => (c :: content, rest)

def takeLiteral? : List Char → Option (List Char × List Char)
  | [] => none
  | '\'' :: rest => some ([], rest)
  | c :: rest =>
      if isControl c then none
      else (takeLiteral? rest).map fun (content, rest) => (c :: content, rest)

/-- How many characters a backslash at the end of a line takes away behind it: blanks, the line
end, and all blanks and line ends after it. None where something else comes first. -/
private def foldedLength? (input : List Char) : Option Nat :=
  let blanks := (input.takeWhile Text.isSpaceOrTab).length
  match newline? (input.drop blanks) with
  | none => none
  | some _ =>
      some (input.takeWhile fun c => Text.isSpaceOrTab c || c == '\n' || c == '\x0d').length

private def plainNewlines : List Char → Bool
  | [] => true
  | '\x0d' :: '\n' :: rest => plainNewlines rest
  | '\x0d' :: _ => false
  | _ :: rest => plainNewlines rest

/-- The rest of a string in three double quotes. Up to two quotes may stand before those that
end it. -/
def takeMultiBasic? : (skip : Nat) → List Char → Option (List Char × List Char)
  | _, [] => none
  | skip + 1, _ :: rest => takeMultiBasic? skip rest
  | 0, '"' :: '"' :: '"' :: '"' :: '"' :: rest => some (['"', '"'], rest)
  | 0, '"' :: '"' :: '"' :: '"' :: rest => some (['"'], rest)
  | 0, '"' :: '"' :: '"' :: rest => some ([], rest)
  | 0, '\\' :: rest =>
      match foldedLength? rest with
      | some length =>
          if plainNewlines (rest.take length) then takeMultiBasic? length rest else none
      | none => do
          let (c, length) ← escape? rest
          let (content, rest) ← takeMultiBasic? length rest
          return (c :: content, rest)
  | 0, '\x0d' :: '\n' :: rest =>
      (takeMultiBasic? 0 rest).map fun (content, rest) => ('\x0d' :: '\n' :: content, rest)
  | 0, c :: rest =>
      if isControl c && c != '\n' then none
      else (takeMultiBasic? 0 rest).map fun (content, rest) => (c :: content, rest)

def takeMultiLiteral? : List Char → Option (List Char × List Char)
  | [] => none
  | '\'' :: '\'' :: '\'' :: '\'' :: '\'' :: rest => some (['\'', '\''], rest)
  | '\'' :: '\'' :: '\'' :: '\'' :: rest => some (['\''], rest)
  | '\'' :: '\'' :: '\'' :: rest => some ([], rest)
  | '\x0d' :: '\n' :: rest =>
      (takeMultiLiteral? rest).map fun (content, rest) => ('\x0d' :: '\n' :: content, rest)
  | c :: rest =>
      if isControl c && c != '\n' then none
      else (takeMultiLiteral? rest).map fun (content, rest) => (c :: content, rest)

/-- A line end right behind the opening quotes does not count. -/
private def dropFirstNewline (input : List Char) : List Char := (newline? input).getD input

/-- The string that a text starts with. -/
def takeString? : List Char → Option (List Char × List Char)
  | '"' :: '"' :: '"' :: rest => takeMultiBasic? 0 (dropFirstNewline rest)
  | '"' :: rest => takeBasic? 0 rest
  | '\'' :: '\'' :: '\'' :: rest => takeMultiLiteral? (dropFirstNewline rest)
  | '\'' :: rest => takeLiteral? rest
  | _ => none

/-- One part of a key. -/
def takeSimpleKey? (input : List Char) : Option (String × List Char) :=
  match input with
  | '"' :: rest => (takeBasic? 0 rest).map fun (key, rest) => (String.ofList key, rest)
  | '\'' :: rest => (takeLiteral? rest).map fun (key, rest) => (String.ofList key, rest)
  | _ =>
      let key := input.takeWhile isBareKeyChar
      if key.isEmpty then none else some (String.ofList key, input.drop key.length)

/-! Scalars without quotes. -/

/-- Digits with single underscores between them, without the underscores. -/
def plainDigits? (isDigit : Char → Bool) : List Char → Option (List Char)
  | [] => none
  | [c] => if isDigit c then some [c] else none
  | c :: '_' :: rest => if isDigit c then (plainDigits? isDigit rest).map (c :: ·) else none
  | c :: rest => if isDigit c then (plainDigits? isDigit rest).map (c :: ·) else none

private def inBase (base : Nat) (digits : List Char) : Nat :=
  digits.foldl (fun n c => base * n + (Text.hexDigit? c).getD 0) 0

/-- An integer has at most 128 bits. -/
private def bounded? (n : Int) : Option Toml :=
  if -(1 <<< 127 : Nat) ≤ n ∧ n < (1 <<< 128 : Nat) then some (.integer n) else none

private def noLeadingZero (digits : List Char) : Bool := digits.length ≤ 1 || digits.head? != some '0'

def integer? (word : List Char) : Option Toml :=
  match word with
  | '0' :: 'x' :: rest =>
      (plainDigits? (fun c => (Text.hexDigit? c).isSome) rest).bind fun ds => bounded? (inBase 16 ds)
  | '0' :: 'o' :: rest =>
      (plainDigits? (fun c => '0' ≤ c && c ≤ '7') rest).bind fun ds => bounded? (inBase 8 ds)
  | '0' :: 'b' :: rest =>
      (plainDigits? (fun c => c == '0' || c == '1') rest).bind fun ds => bounded? (inBase 2 ds)
  | _ => do
      let (negative, unsigned) := Numeral.takeSign word
      let digits ← plainDigits? Char.isDigit unsigned
      if noLeadingZero digits then
        bounded? (if negative then -(inBase 10 digits : Int) else inBase 10 digits)
      else none

private def isExponentMark (c : Char) : Bool := c == 'e' || c == 'E'

/-- Digits, an optional point with digits behind it, and an optional exponent, one of the two
at least. -/
def decimal? (word : List Char) : Option Numeral := do
  let (negative, unsigned) := Numeral.takeSign word
  let (before, exponentPart) := (unsigned.takeWhile (!isExponentMark ·),
    unsigned.dropWhile (!isExponentMark ·))
  let (wholePart, fractionPart) := (before.takeWhile (· != '.'), before.dropWhile (· != '.'))
  let whole ← plainDigits? Char.isDigit wholePart
  let fraction ← match fractionPart with
    | _ :: digits => plainDigits? Char.isDigit digits
    | [] => some []
  let exponent ← match exponentPart with
    | _ :: rest => do
        let (below, digits) := Numeral.takeSign rest
        let digits ← plainDigits? Char.isDigit digits
        let size : Int := Nat.ofDigitChars 10 digits 0
        some (if below then -size else size)
    | [] => some 0
  if (fractionPart.isEmpty && exponentPart.isEmpty) || !noLeadingZero whole then none
  else some ⟨negative, whole, fraction, exponent⟩

def float? (word : List Char) : Option Toml :=
  let (negative, unsigned) := Numeral.takeSign word
  if unsigned = ['i', 'n', 'f'] then some (.float (.infinity negative))
  else if unsigned = ['n', 'a', 'n'] then
    some (.float (if negative then Binary64.nan.neg else .nan))
  else do
    let n ← decimal? word
    let x := n.toBinary64
    if x.isFinite then some (.float x) else none

/-- What a word without quotes stands for. -/
def wordValue? (word : List Char) : Option Toml :=
  if word = ['t', 'r', 'u', 'e'] then some (.boolean true)
  else if word = ['f', 'a', 'l', 's', 'e'] then some (.boolean false)
  else (integer? word).or ((float? word).or ((Moment.ofText? word).map .moment))

private def isWordChar (c : Char) : Bool :=
  c.isAlphanum || c == '+' || c == '-' || c == '_' || c == '.' || c == ':'

/-- A word and the text behind it. One blank may stand between a date and a time. -/
def takeWord (input : List Char) : List Char × List Char :=
  let word := input.takeWhile isWordChar
  let rest := input.drop word.length
  match takeDate? word, rest with
  | some (_, []), ' ' :: c :: behind =>
      if c.isDigit then
        let time := (c :: behind).takeWhile isWordChar
        (word ++ 'T' :: time, (c :: behind).drop time.length)
      else (word, rest)
  | _, _ => (word, rest)

end Stencil.Toml
