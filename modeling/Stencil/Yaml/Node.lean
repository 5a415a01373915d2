import Stencil.Yaml.Token

/-! The nodes of a YAML document and how tokens spell them. Aliases still refer to anchors. -/

namespace Stencil.Yaml

/-- A node, with `ρ` for what anchors are called. -/
inductive Node (ρ : Type) where
  | alias (target : ρ)
  | scalar (anchor : Option ρ) (tag : Option String) (style : Style) (content : String)
  | sequence (anchor : Option ρ) (tag : Option String) (items : List (Node ρ))
  | mapping (anchor : Option ρ) (tag : Option String) (entries : List (Node ρ × Node ρ))

namespace Node

/-- What stands where a node is left out. -/
def empty : Node String := .scalar none none .plain ""

instance {ρ : Type} : Inhabited (Node ρ) := ⟨.scalar none none .plain ""⟩

/-- What handles of tags stand for. -/
abbrev Handles := List (String × String)

/-- Handles that need no directive, unless one says otherwise. -/
def Handles.standard : Handles := [("!", "!"), ("!!", "tag:yaml.org,2002:")]

/-- The full text of a tag. A suffix without a handle is the whole tag. -/
def fullTag? (handles : Handles) (handle suffix : String) : Option String :=
  if handle.isEmpty then some suffix
  else (handles.find? fun known => known.1 == handle).map fun known => known.2 ++ suffix

/-- The marks in front of a node. -/
structure Marks where
  anchor : Option String := none
  tag : Option String := none

/-- An anchor and a tag in any order, one of each at most. -/
def takeMarks? (handles : Handles) : List Token → Option (Marks × List Token)
  | .anchor name :: .tag handle suffix :: rest =>
      (fullTag? handles handle suffix).map fun tag => (⟨some name, some tag⟩, rest)
  | .tag handle suffix :: .anchor name :: rest =>
      (fullTag? handles handle suffix).map fun tag => (⟨some name, some tag⟩, rest)
  | .anchor name :: rest => some (⟨some name, none⟩, rest)
  | .tag handle suffix :: rest =>
      (fullTag? handles handle suffix).map fun tag => (⟨none, some tag⟩, rest)
  | rest => some ({}, rest)

private def endsItem : List Token → Bool
  | .item :: _ | .blockEnd :: _ => true
  | _ => false

private def endsEntry : List Token → Bool
  | .key :: _ | .value :: _ | .blockEnd :: _ => true
  | _ => false

private def endsFlowValue (close : Token) : List Token → Bool
  | .comma :: _ => true
  | token :: _ => token == close
  | [] => false

private def endsFlowKey (close : Token) : List Token → Bool
  | .value :: _ => true
  | rest => endsFlowValue close rest

mutual

/-- A node and the tokens behind it. Blocks only stand outside of brackets, and the items of a
sequence without a block of its own only in a mapping. -/
def take? (handles : Handles) :
    (steps : Nat) → (block bareItems : Bool) → List Token → Option (Node String × List Token)
  | 0, _, _, _ => none
  | _ + 1, _, _, .alias name :: rest => some (.alias name, rest)
  | steps + 1, block, bareItems, tokens => do
      let (marks, tokens) ← takeMarks? handles tokens
      match tokens with
      | .scalar style content :: rest =>
          let tag := if marks.tag = some "!" then none else marks.tag
          some (.scalar marks.anchor tag style content, rest)
      | .openSequence :: rest =>
          let (items, rest) ← takeFlowItems? handles steps true rest
          some (.sequence marks.anchor marks.tag items, rest)
      | .openMapping :: rest =>
          let (entries, rest) ← takeFlowEntries? handles steps true rest
          some (.mapping marks.anchor marks.tag entries, rest)
      | rest =>
          match rest, block, bareItems with
          | .item :: _, _, true =>
              let (items, rest) ← takeBareItems? handles steps rest
              some (.sequence marks.anchor marks.tag items, rest)
          | .blockSequence :: rest, true, _ =>
              let (items, rest) ← takeItems? handles steps rest
              some (.sequence marks.anchor marks.tag items, rest)
          | .blockMapping :: rest, true, _ =>
              let (entries, rest) ← takeEntries? handles steps rest
              some (.mapping marks.anchor marks.tag entries, rest)
          | rest, _, _ =>
              if marks.anchor.isSome || marks.tag.isSome then
                some (.scalar marks.anchor marks.tag .plain "", rest)
              else none

/-- The items of a block up to its end. -/
def takeItems? (handles : Handles) :
    (steps : Nat) → List Token → Option (List (Node String) × List Token)
  | 0, _ => none
  | _ + 1, .blockEnd :: rest => some ([], rest)
  | steps + 1, .item :: rest => do
      let (item, rest) ← if endsItem rest then some (empty, rest)
        else take? handles steps true false rest
      let (items, rest) ← takeItems? handles steps rest
      return (item :: items, rest)
  | _ + 1, _ => none

/-- The items of a sequence that something else than another item ends. -/
def takeBareItems? (handles : Handles) :
    (steps : Nat) → List Token → Option (List (Node String) × List Token)
  | 0, _ => none
  | steps + 1, .item :: rest => do
      let (item, rest) ← if endsItem rest || endsEntry rest then some (empty, rest)
        else take? handles steps true false rest
      let (items, rest) ← takeBareItems? handles steps rest
      return (item :: items, rest)
  | _ + 1, rest => some ([], rest)

/-- The entries of a block up to its end. -/
def takeEntries? (handles : Handles) :
    (steps : Nat) → List Token → Option (List (Node String × Node String) × List Token)
  | 0, _ => none
  | _ + 1, .blockEnd :: rest => some ([], rest)
  | steps + 1, .key :: rest => do
      let (key, rest) ← if endsEntry rest then some (empty, rest)
        else take? handles steps true true rest
      let (value, rest) ← match rest with
        | .value :: rest =>
            if endsEntry rest then some (empty, rest) else take? handles steps true true rest
        | rest => some (empty, rest)
      let (entries, rest) ← takeEntries? handles steps rest
      return ((key, value) :: entries, rest)
  | _ + 1, _ => none

/-- The items between brackets up to the closing one. An item may be a single entry. An entry
without a key takes the token in the place of the key away. -/
def takeFlowItems? (handles : Handles) :
    (steps : Nat) → (first : Bool) → List Token → Option (List (Node String) × List Token)
  | 0, _, _ => none
  | _ + 1, _, .closeSequence :: rest => some ([], rest)
  | steps + 1, first, tokens => do
      let tokens ← match tokens, first with
        | tokens, true => some tokens
        | .comma :: rest, false => some rest
        | _, false => none
      match tokens with
      | .closeSequence :: rest => some ([], rest)
      | .key :: rest =>
          let (key, rest) ← if endsFlowKey .closeSequence rest then some (empty, rest.tail)
            else take? handles steps false false rest
          let (value, rest) ← match rest with
            | .value :: rest =>
                if endsFlowValue .closeSequence rest then some (empty, rest)
                else take? handles steps false false rest
            | rest => some (empty, rest)
          let (items, rest) ← takeFlowItems? handles steps false rest
          some (.mapping none none [(key, value)] :: items, rest)
      | tokens =>
          let (item, rest) ← take? handles steps false false tokens
          let (items, rest) ← takeFlowItems? handles steps false rest
          some (item :: items, rest)

/-- The entries between braces up to the closing one. -/
def takeFlowEntries? (handles : Handles) :
    (steps : Nat) → (first : Bool) → List Token →
      Option (List (Node String × Node String) × List Token)
  | 0, _, _ => none
  | _ + 1, _, .closeMapping :: rest => some ([], rest)
  | steps + 1, first, tokens => do
      let tokens ← match tokens, first with
        | tokens, true => some tokens
        | .comma :: rest, false => some rest
        | _, false => none
      match tokens with
      | .closeMapping :: rest => some ([], rest)
      | .key :: rest =>
          let (key, rest) ← if endsFlowKey .closeMapping rest then some (empty, rest)
            else take? handles steps false false rest
          let (value, rest) ← match rest with
            | .value :: rest =>
                if endsFlowValue .closeMapping rest then some (empty, rest)
                else take? handles steps false false rest
            | rest => some (empty, rest)
          let (entries, rest) ← takeFlowEntries? handles steps false rest
          some ((key, value) :: entries, rest)
      | tokens =>
          let (key, rest) ← take? handles steps false false tokens
          let (entries, rest) ← takeFlowEntries? handles steps false rest
          some ((key, empty) :: entries, rest)

end

/-- The directives in front of a document. There is one version at most, and one meaning for
each handle. -/
def takeDirectives? : (versioned : Bool) → Handles → List Token → Option (Handles × List Token)
  | versioned, handles, .version major minor :: rest =>
      if versioned || major != 1 || (minor != 1 && minor != 2) then none
      else takeDirectives? true handles rest
  | versioned, handles, .handle name replacement :: rest =>
      if handles.any fun known => known.1 == name then none
      else takeDirectives? versioned (handles ++ [(name, replacement)]) rest
  | _, handles, rest => some (handles ++ Handles.standard, rest)

private def beginsExplicitly : List Token → Bool
  | .version .. :: _ | .handle .. :: _ | .documentStart :: _ => true
  | _ => false

private def endsDocument : List Token → Bool
  | .documentEnd :: _ | .streamEnd :: _ => true
  | rest => beginsExplicitly rest

/-- The node of the only document in a text. A text without any has the empty node. -/
def ofTokens? (tokens : List Token) : Option (Node String) := do
  let steps := 3 * tokens.length + 3
  if tokens = [.streamEnd] then return empty
  let (node, rest) ← if beginsExplicitly tokens then do
      let (handles, rest) ← takeDirectives? false [] tokens
      match rest with
      | .documentStart :: rest =>
          if endsDocument rest then some (empty, rest) else take? handles steps true false rest
      | _ => none
    else take? Handles.standard steps true false tokens
  if rest.dropWhile (· == .documentEnd) = [.streamEnd] then return node else none

end Node

end Stencil.Yaml
