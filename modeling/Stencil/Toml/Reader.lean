import Stencil.Toml.Scalar

/-! Reading TOML documents: lines of headers and of keys with values. -/

namespace Stencil.Toml

/-- The text behind a comment, which goes to the end of the line. -/
def skipComment? : List Char → Option (List Char)
  | '#' :: rest =>
      let content := rest.takeWhile fun c => c != '\n'
      let content := if content.getLast? == some '\x0d' then content.dropLast else content
      if content.any isControl then none else some (rest.drop content.length)
  | rest => some rest

/-- Blanks, comments and line ends, as many as there are. -/
def skipLines? : (steps : Nat) → List Char → Option (List Char)
  | 0, input => some input
  | steps + 1, input => do
      let input ← skipComment? (skipBlanks input)
      match newline? input with
      | some rest => skipLines? steps rest
      | none => some input

/-- The end of a line, after blanks and a comment, or the end of the text. -/
def lineEnd? (input : List Char) : Option (List Char) := do
  let input ← skipComment? (skipBlanks input)
  if input.isEmpty then some [] else newline? input

/-- A key of parts between dots. The last part is given apart from those before it. -/
def takeKey? : (steps : Nat) → List Char → Option ((List String × String) × List Char)
  | 0, _ => none
  | steps + 1, input => do
      let (key, rest) ← takeSimpleKey? input
      match skipBlanks rest with
      | '.' :: behind =>
          let ((path, last), rest) ← takeKey? steps (skipBlanks behind)
          some ((key :: path, last), rest)
      | rest => some (([], key), rest)

/-- How deep arrays and inline tables may be nested. -/
def nestingLimit : Nat := 80

mutual

/-- A value and the text behind it. Steps bound the length, depth the nesting. -/
def takeValue? : (steps depth : Nat) → List Char → Option (Toml × List Char)
  | 0, _, _ => none
  | steps + 1, depth, input =>
      match input with
      | '[' :: rest =>
          if depth = 0 then none
          else (takeItems? steps (depth - 1) rest).map fun (items, rest) => (.array items, rest)
      | '\x7b' :: rest =>
          if depth = 0 then none
          else (takeMembers? steps (depth - 1) [] rest).map fun (entries, rest) =>
            (.table (Draft.finishEntries entries), rest)
      | '"' :: _ | '\'' :: _ =>
          (takeString? input).map fun (content, rest) => (.text (String.ofList content), rest)
      | _ =>
          let (word, rest) := takeWord input
          (wordValue? word).map (·, rest)

/-- The items of an array up to its closing bracket. A comma may stand behind the last. -/
def takeItems? : (steps depth : Nat) → List Char → Option (List Toml × List Char)
  | 0, _, _ => none
  | steps + 1, depth, input => do
      match ← skipLines? input.length input with
      | ']' :: rest => some ([], rest)
      | input =>
          let (item, rest) ← takeValue? steps depth input
          match ← skipLines? rest.length rest with
          | ']' :: rest => some ([item], rest)
          | ',' :: rest =>
              let (items, rest) ← takeItems? steps depth rest
              some (item :: items, rest)
          | _ => none

/-- The entries of an inline table up to its closing brace, after those read so far. -/
def takeMembers? : (steps depth : Nat) → Draft.Entries → List Char →
    Option (Draft.Entries × List Char)
  | 0, _, _, _ => none
  | steps + 1, depth, entries, input => do
      match ← skipLines? input.length input with
      | '\x7d' :: rest => some (entries, rest)
      | input =>
          let ((path, key), rest) ← takeKey? input.length input
          match rest with
          | '=' :: rest =>
              let (value, rest) ← takeValue? steps depth (skipBlanks rest)
              let entries ← Draft.addValue path key value entries
              match ← skipLines? rest.length rest with
              | '\x7d' :: rest => some (entries, rest)
              | ',' :: rest => takeMembers? steps depth entries rest
              | _ => none
          | _ => none

end

inductive Line where
  | pair (path : List String) (key : String) (value : Toml)
  | header (path : List String) (key : String)
  | arrayHeader (path : List String) (key : String)

private def closing? : List Char → List Char → Option (List Char)
  | [], rest => some rest
  | c :: marks, d :: rest => if c = d then closing? marks rest else none
  | _ :: _, [] => none

def takeLine? (input : List Char) : Option (Line × List Char) := do
  match input with
  | '[' :: '[' :: rest =>
      let ((path, key), rest) ← takeKey? rest.length (skipBlanks rest)
      let rest ← (closing? [']', ']'] rest).bind lineEnd?
      return (.arrayHeader path key, rest)
  | '[' :: rest =>
      let ((path, key), rest) ← takeKey? rest.length (skipBlanks rest)
      let rest ← (closing? [']'] rest).bind lineEnd?
      return (.header path key, rest)
  | _ =>
      let ((path, key), rest) ← takeKey? input.length input
      let rest ← closing? ['='] rest
      let (value, rest) ← takeValue? input.length nestingLimit (skipBlanks rest)
      let rest ← lineEnd? rest
      return (.pair path key value, rest)

private def takeLines? : (steps : Nat) → List Char → Option (List Line)
  | 0, input => if input.isEmpty then some [] else none
  | steps + 1, input => do
      match skipBlanks (← skipLines? input.length input) with
      | [] => some []
      | input =>
          let (line, rest) ← takeLine? input
          let lines ← takeLines? steps rest
          return line :: lines

/-- Lines up to the next header, added to a table, and the lines from there on. -/
private def addPairs? : List Line → Draft.Entries → Option (Draft.Entries × List Line)
  | .pair path key value :: rest, entries => do
      let entries ← Draft.addValue path key value entries
      addPairs? rest entries
  | rest, entries => some (entries, rest)

private def isPair : Line → Bool
  | .pair .. => true
  | _ => false

private def build (lines : List Line) (entries : Draft.Entries) : Option Draft.Entries :=
  (addPairs? (lines.takeWhile isPair) entries).map Prod.fst

/-- The tables of the lines, header by header. -/
private def addLines? : List Line → Draft.Entries → Option Draft.Entries
  | [], root => some root
  | .pair .. :: rest, root => addLines? rest root
  | .header path key :: rest, root => do
      let root ← Draft.addTable path key (build rest) root
      addLines? rest root
  | .arrayHeader path key :: rest, root => do
      let root ← Draft.addToTables path key (build rest) root
      addLines? rest root

/-- The entries of a document. A byte order mark before it is passed over. -/
def read? (document : String) : Option (List (String × Toml)) := do
  let input := match document.toList with
    | '\ufeff' :: rest => rest
    | input => input
  let lines ← takeLines? (input.length + 1) input
  let root ← build lines []
  let root ← addLines? lines root
  return Draft.finishEntries root

def readValue? (document : String) : Option Value :=
  (read? document).bind fun entries => (Toml.table entries).toValue?

end Stencil.Toml
