import Stencil.Yaml.Block
import Stencil.Yaml.Mark
import Stencil.Yaml.Plain

/-! Cutting a YAML text into tokens. A key is only known as one by the colon behind it, so its
token is put in front of what may be a key once the colon is met. -/

namespace Stencil.Yaml

/-- A place where a key may start, if a colon follows on the same line. -/
structure KeyPlace where
  /-- Whether nothing but a key can stand there. -/
  required : Bool
  /-- How many tokens come before it. -/
  before : Nat
  index : Nat
  line : Nat
  column : Nat

structure Lexer where
  cursor : Cursor
  /-- The tokens so far, the last first. -/
  tokens : List Token := []
  /-- The column of the innermost block, −1 outside of all. -/
  indent : Int := -1
  outer : List Int := []
  keyAllowed : Bool := true
  /-- The key place of this pair of brackets, and those of the ones around it. -/
  place : Option KeyPlace := none
  enclosing : List (Option KeyPlace) := []

namespace Lexer

def inFlow (s : Lexer) : Bool := !s.enclosing.isEmpty

def push (token : Token) (s : Lexer) : Lexer := { s with tokens := token :: s.tokens }

/-- Put a token behind the first `before` ones. -/
def insert (before : Nat) (token : Token) (s : Lexer) : Lexer :=
  let later := s.tokens.length - before
  { s with tokens := s.tokens.take later ++ token :: s.tokens.drop later }

/-- Pass over blanks, comments and line ends. A tab is only a blank where no key can start. -/
def skipGaps : (steps : Nat) → Lexer → Lexer
  | 0, s => s
  | steps + 1, s =>
      let c := s.cursor.skipWhile fun d =>
        d == ' ' || (d == '\t' && (s.inFlow || !s.keyAllowed))
      let c := if c.rest.head? == some '#' then c.skipWhile (!isBreak ·) else c
      match c.newLine? with
      | some (_, next) =>
          skipGaps steps { s with cursor := next, keyAllowed := s.keyAllowed || !s.inFlow }
      | none => { s with cursor := c }

/-- A key ends on the line it starts on, within 1024 characters. None where a key is missed. -/
def dropStale? (c : Cursor) : Option KeyPlace → Option (Option KeyPlace)
  | none => some none
  | some place =>
      if place.line < c.line || place.index + 1024 < c.index then
        if place.required then none else some none
      else some (some place)

def dropStalePlaces? (s : Lexer) : Option Lexer := do
  let place ← dropStale? s.cursor s.place
  let enclosing ← s.enclosing.mapM (dropStale? s.cursor)
  return { s with place, enclosing }

/-- Give up the key place at hand. None where only a key can stand there. -/
def dropPlace? (s : Lexer) : Option Lexer :=
  if s.place.any KeyPlace.required then none else some { s with place := none }

/-- Note that a key may start at the cursor. -/
def notePlace? (s : Lexer) : Option Lexer :=
  if s.keyAllowed then do
    let c := s.cursor
    let s ← s.dropPlace?
    let required := !s.inFlow && s.indent == c.column
    some { s with place := some ⟨required, s.tokens.length, c.index, c.line, c.column⟩ }
  else some s

/-- Begin a block at a column right of the innermost one, behind some of the tokens. -/
def openBlock (column before : Nat) (token : Token) (s : Lexer) : Lexer :=
  if !s.inFlow && s.indent < column then
    { s with indent := column, outer := s.indent :: s.outer }.insert before token
  else s

private def closeFrom (column : Int) : List Int → Lexer → Lexer
  | [], s => s
  | indent :: outer, s =>
      if column < s.indent then closeFrom column outer ({ s with indent, outer }.push .blockEnd)
      else s

/-- End the blocks that start right of a column. -/
def closeBlocks (column : Int) (s : Lexer) : Lexer :=
  if s.inFlow then s else closeFrom column s.outer s

private def advance (n : Nat) (s : Lexer) : Lexer := { s with cursor := s.cursor.skip n }

private def documentMark? (token : Token) (s : Lexer) : Option Lexer := do
  let s ← (s.closeBlocks (-1)).dropPlace?
  return { s with keyAllowed := false }.advance 3 |>.push token

private def directive? (s : Lexer) : Option Lexer := do
  let s ← (s.closeBlocks (-1)).dropPlace?
  let (token, cursor) ← takeDirective? (s.cursor.skip 1)
  return { s with keyAllowed := false, cursor }.push token

private def openFlow? (token : Token) (s : Lexer) : Option Lexer := do
  let s ← s.notePlace?
  return { s with place := none, enclosing := s.place :: s.enclosing, keyAllowed := true }.advance 1
    |>.push token

private def closeFlow? (token : Token) (s : Lexer) : Option Lexer := do
  let s ← s.dropPlace?
  let s := match s.enclosing with
    | place :: enclosing => { s with place, enclosing }
    | [] => s
  return { s with keyAllowed := false }.advance 1 |>.push token

private def comma? (s : Lexer) : Option Lexer := do
  let s ← s.dropPlace?
  return { s with keyAllowed := true }.advance 1 |>.push .comma

/-- An item or a key with a mark of its own begins a block where none is open. -/
private def beginEntry? (block token : Token) (keyAllowed : Bool) (s : Lexer) : Option Lexer :=
  if !s.inFlow && !s.keyAllowed then none
  else do
    let s := s.openBlock s.cursor.column s.tokens.length block
    let s ← s.dropPlace?
    return { s with keyAllowed }.advance 1 |>.push token

private def value? (s : Lexer) : Option Lexer :=
  match s.place with
  | some place =>
      let s := s.insert place.before .key
      let s := s.openBlock place.column place.before .blockMapping
      some ({ s with place := none, keyAllowed := false }.advance 1 |>.push .value)
  | none =>
      if !s.inFlow && !s.keyAllowed then none
      else
        let s := s.openBlock s.cursor.column s.tokens.length .blockMapping
        some ({ s with keyAllowed := !s.inFlow }.advance 1 |>.push .value)

private def name? (token : String → Token) (s : Lexer) : Option Lexer := do
  let s ← s.notePlace?
  let (name, cursor) ← takeName? (s.cursor.skip 1)
  return { s with keyAllowed := false, cursor }.push (token name)

private def tag? (s : Lexer) : Option Lexer := do
  let s ← s.notePlace?
  let ((handle, suffix), cursor) ← takeTag? s.inFlow s.cursor
  return { s with keyAllowed := false, cursor }.push (.tag handle suffix)

private def block? (folds : Bool) (s : Lexer) : Option Lexer := do
  let s ← s.dropPlace?
  let (content, cursor) ← takeBlock? folds s.indent (s.cursor.skip 1)
  let style := if folds then Style.other else .literal
  return { s with keyAllowed := true, cursor }.push (.scalar style (String.ofList content))

private def quoted? (quote : Quote) (s : Lexer) : Option Lexer := do
  let s ← s.notePlace?
  let c := s.cursor.skip 1
  let (content, cursor) ← takeQuoted? quote (c.rest.length + 1) c
  return { s with keyAllowed := false, cursor }.push (.scalar .other (String.ofList content))

private def plain? (s : Lexer) : Option Lexer := do
  let s ← s.notePlace?
  let c := s.cursor
  let ((content, broken), cursor) ←
    takePlain? s.inFlow (s.indent + 1).toNat (c.rest.length + 1) [] {} c
  return { s with keyAllowed := broken, cursor }.push (.scalar .plain (String.ofList content))

/-- Characters that a plain scalar does not start with. -/
def isIndicator (c : Char) : Bool :=
  c == '-' || c == '?' || c == ':' || c == ',' || c == '[' || c == ']' || c == '\x7b'
    || c == '\x7d' || c == '#' || c == '&' || c == '*' || c == '!' || c == '|' || c == '>'
    || c == '\'' || c == '"' || c == '%' || c == '@' || c == '\x60'

/-- The token that starts with a character, which the text behind it follows. -/
private def token? (c : Char) (rest : List Char) (s : Lexer) : Option Lexer :=
  if s.cursor.column = 0 && c = '%' then s.directive?
  else if s.cursor.atMarks '-' then s.documentMark? .documentStart
  else if s.cursor.atMarks '.' then s.documentMark? .documentEnd
  else if c = '[' then s.openFlow? .openSequence
  else if c = '\x7b' then s.openFlow? .openMapping
  else if c = ']' then s.closeFlow? .closeSequence
  else if c = '\x7d' then s.closeFlow? .closeMapping
  else if c = ',' then s.comma?
  else if c = '-' && atGap rest then s.beginEntry? .blockSequence .item true
  else if c = '?' && (s.inFlow || atGap rest) then s.beginEntry? .blockMapping .key !s.inFlow
  else if c = ':' && (s.inFlow || atGap rest) then s.value?
  else if c = '*' then s.name? .alias
  else if c = '&' then s.name? .anchor
  else if c = '!' then s.tag?
  else if c = '|' && !s.inFlow then s.block? false
  else if c = '>' && !s.inFlow then s.block? true
  else if c = '\'' then s.quoted? .single
  else if c = '"' then s.quoted? .double
  else if Text.isSpaceOrTab c then none
  else if !isIndicator c || c = '-' || (!s.inFlow && (c = '?' || c = ':')) then s.plain?
  else none

private def run? : (steps : Nat) → Lexer → Option (List Token)
  | 0, _ => none
  | steps + 1, s => do
      let s ← (s.skipGaps (s.cursor.rest.length + 1)).dropStalePlaces?
      let s := s.closeBlocks s.cursor.column
      match s.cursor.rest with
      | [] =>
          let s ← (s.closeBlocks (-1)).dropPlace?
          return (s.push .streamEnd).tokens.reverse
      | c :: rest =>
          let s ← s.token? c rest
          s.run? steps

/-- Characters that may stand in a text. -/
def isAllowed (c : Char) : Bool :=
  let code := c.toNat
  code == 0x9 || code == 0xa || code == 0xd || (0x20 ≤ code && code ≤ 0x7e) || code == 0x85
    || (0xa0 ≤ code && code ≤ 0xfffd) || 0x10000 ≤ code

/-- The tokens of a text. A byte order mark before it is passed over, but takes a column. -/
def tokens? (text : String) : Option (List Token) :=
  let input := text.toList
  if !input.all isAllowed then none
  else
    let start : Cursor := ⟨input, 0, 0, 0⟩
    let start := if input.head? == some '\ufeff' then start.skip 1 else start
    run? (input.length + 1) { cursor := start }

end Lexer

end Stencil.Yaml
