import Stencil.Yaml.Quoted
import Stencil.Yaml.Token

/-! Marks on nodes and documents: anchors, tags and directives. -/

namespace Stencil.Yaml

/-- The name of an anchor or alias. -/
def takeName? (c : Cursor) : Option (String × Cursor) :=
  let (name, c) := c.takeWhile isWordChar
  let ends := atGap c.rest || c.rest.head?.any fun d =>
    d == '?' || d == ':' || d == ',' || d == ']' || d == '\x7d' || d == '%' || d == '@' || d == '\x60'
  if name.isEmpty || !ends then none else some (String.ofList name, c)

private def isTagChar (c : Char) : Bool :=
  isWordChar c || c == ';' || c == '/' || c == '?' || c == ':' || c == '@' || c == '&' || c == '='
    || c == '+' || c == '$' || c == '.' || c == '%' || c == '!' || c == '~' || c == '*'
    || c == '\'' || c == '(' || c == ')'

private def isUriChar (c : Char) : Bool := isTagChar c || c == ',' || c == '[' || c == ']'

private def octet? : List Char → Option (UInt8 × List Char)
  | '%' :: a :: b :: rest => do
      let high ← Text.hexDigit? a
      let low ← Text.hexDigit? b
      return (UInt8.ofNat (16 * high + low), rest)
  | _ => none

private def octets? : Nat → List Char → Option (List UInt8 × List Char)
  | 0, rest => some ([], rest)
  | n + 1, rest => do
      let (octet, rest) ← octet? rest
      let (octets, rest) ← octets? n rest
      return (octet :: octets, rest)

private def encodedLength (first : UInt8) : Nat :=
  if first < 0x80 then 1
  else if first < 0xc0 then 0
  else if first < 0xe0 then 2
  else if first < 0xf0 then 3
  else if first < 0xf8 then 4
  else 0

/-- The character whose encoding the text spells in octets after percent signs. -/
private def encodedChar? (text : List Char) : Option (List Char × Nat) := do
  let (first, _) ← octet? text
  let length := encodedLength first
  if length = 0 then none
  else
    let (octets, _) ← octets? length text
    let decoded ← String.fromUTF8? ⟨octets.toArray⟩
    return (decoded.toList, 3 * length)

/-- Characters of a tag up to the first other one. -/
def takeUri? (allowed : Char → Bool) : (steps : Nat) → Cursor → Option (List Char × Cursor)
  | 0, c => some ([], c)
  | steps + 1, c =>
      match c.rest with
      | '%' :: _ => do
          let (decoded, length) ← encodedChar? c.rest
          let (uri, c) ← takeUri? allowed steps (c.skip length)
          some (decoded ++ uri, c)
      | d :: _ =>
          if allowed d then (takeUri? allowed steps (c.skip 1)).map fun (uri, c) => (d :: uri, c)
          else some ([], c)
      | [] => some ([], c)

private def takeSuffix? (allowed : Char → Bool) (c : Cursor) : Option (String × Cursor) :=
  (takeUri? allowed c.rest.length c).map fun (uri, c) => (String.ofList uri, c)

/-- An exclamation mark, with a name and a second one if there is one. -/
private def takeHandle? (c : Cursor) : Option (List Char × Cursor) :=
  match c.rest with
  | '!' :: _ =>
      let (name, c) := (c.skip 1).takeWhile isWordChar
      match c.rest with
      | '!' :: _ => some ('!' :: name ++ ['!'], c.skip 1)
      | _ => some ('!' :: name, c)
  | _ => none

private def isClosedHandle (handle : List Char) : Bool :=
  2 ≤ handle.length && handle.getLast? == some '!'

private def tagBody? (c : Cursor) : Option ((String × String) × Cursor) :=
  match c.rest with
  | '!' :: '<' :: _ => do
      let (uri, c) ← takeSuffix? isUriChar (c.skip 2)
      match c.rest with
      | '>' :: _ => if uri.isEmpty then none else some (("", uri), c.skip 1)
      | _ => none
  | _ => do
      let (handle, after) ← takeHandle? c
      if isClosedHandle handle then
        let (suffix, c) ← takeSuffix? isTagChar after
        if suffix.isEmpty then none else some ((String.ofList handle, suffix), c)
      else
        let (suffix, c) ← takeSuffix? isTagChar after
        let suffix := String.ofList handle.tail ++ suffix
        if suffix.isEmpty then some (("", "!"), c) else some (("!", suffix), c)

/-- The handle and the suffix of a tag. A lone exclamation mark is a suffix. -/
def takeTag? (inFlow : Bool) (c : Cursor) : Option ((String × String) × Cursor) := do
  let (tag, c) ← tagBody? c
  if atGap c.rest || (inFlow && c.rest.head? == some ',') then some (tag, c) else none

private def takeVersionNumber? (c : Cursor) : Option (Nat × Cursor) :=
  let (digits, c) := c.takeWhile Char.isDigit
  if digits.isEmpty || 9 < digits.length then none
  else some (digits.foldl (fun n d => 10 * n + (d.toNat - '0'.toNat)) 0, c)

private def takeVersion? (c : Cursor) : Option (Token × Cursor) := do
  let (major, c) ← takeVersionNumber? (c.skipWhile Text.isSpaceOrTab)
  if c.rest.head? != some '.' then none
  else
    let (minor, c) ← takeVersionNumber? (c.skip 1)
    some (.version major minor, c)

private def takeHandleMeaning? (c : Cursor) : Option (Token × Cursor) := do
  let (handle, c) ← takeHandle? (c.skipWhile Text.isSpaceOrTab)
  if handle != ['!'] && !isClosedHandle handle then none
  else if !c.rest.head?.any Text.isSpaceOrTab then none
  else
    let (replacement, c) ← takeSuffix? isUriChar (c.skipWhile Text.isSpaceOrTab)
    if replacement.isEmpty || !atGap c.rest then none
    else some (.handle (String.ofList handle) replacement, c)

/-- A directive behind its percent sign, up to the end of the line. -/
def takeDirective? (c : Cursor) : Option (Token × Cursor) := do
  let (name, c) := c.takeWhile isWordChar
  if !atGap c.rest then none
  else
    let (token, c) ← if name = ['Y', 'A', 'M', 'L'] then takeVersion? c
      else if name = ['T', 'A', 'G'] then takeHandleMeaning? c
      else none
    let c ← c.skipToLineEnd?
    return (token, c)

end Stencil.Yaml
