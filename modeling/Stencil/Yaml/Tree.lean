import Stencil.Value.Basic
import Stencil.Yaml.Lexer
import Stencil.Yaml.Node

/-! YAML trees: nodes with what aliases refer to in the place of the aliases. An anchor has the
number of the names before it, and an alias refers to the last node with the number that its
name has at that point. -/

namespace Stencil

/-- A tree. A refused part is nested too deep, or repeated too often; that only matters where
somebody asks for it. -/
inductive Yaml where
  | scalar (tag : Option String) (style : Yaml.Style) (content : String)
  | sequence (tag : Option String) (items : List Yaml)
  | mapping (tag : Option String) (entries : List (Yaml × Yaml))
  | refused

namespace Yaml

instance : Inhabited Yaml := ⟨.refused⟩

namespace Node

abbrev Numbers := List (String × Nat)

private def define (name : String) (numbers : Numbers) : Numbers :=
  insertEntry name numbers.length numbers

private def numberAnchor : Option String → Numbers → Option Nat × Numbers
  | none, numbers => (none, numbers)
  | some name, numbers => (some numbers.length, define name numbers)

mutual

/-- Numbers in the place of names. None where an alias has no anchor before it. -/
def number? : Node String → Numbers → Option (Node Nat × Numbers)
  | .alias name, numbers => (atKey? name numbers).map fun n => (.alias n, numbers)
  | .scalar anchor tag style content, numbers =>
      let (anchor, numbers) := numberAnchor anchor numbers
      some (.scalar anchor tag style content, numbers)
  | .sequence anchor tag items, numbers => do
      let (anchor, numbers) := numberAnchor anchor numbers
      let (items, numbers) ← numberItems? items numbers
      return (.sequence anchor tag items, numbers)
  | .mapping anchor tag entries, numbers => do
      let (anchor, numbers) := numberAnchor anchor numbers
      let (entries, numbers) ← numberEntries? entries numbers
      return (.mapping anchor tag entries, numbers)

def numberItems? : List (Node String) → Numbers → Option (List (Node Nat) × Numbers)
  | [], numbers => some ([], numbers)
  | item :: rest, numbers => do
      let (item, numbers) ← item.number? numbers
      let (rest, numbers) ← numberItems? rest numbers
      return (item :: rest, numbers)

def numberEntries? :
    List (Node String × Node String) → Numbers → Option (List (Node Nat × Node Nat) × Numbers)
  | [], numbers => some ([], numbers)
  | (key, value) :: rest, numbers => do
      let (key, numbers) ← key.number? numbers
      let (value, numbers) ← value.number? numbers
      let (rest, numbers) ← numberEntries? rest numbers
      return ((key, value) :: rest, numbers)

end

private def anchored (anchor : Option Nat) (node : Node Nat) : List (Nat × Node Nat) :=
  (anchor.map fun n => (n, node)).toList

mutual

/-- The nodes with an anchor, in the order they start in. -/
def targets : Node Nat → List (Nat × Node Nat)
  | .alias _ => []
  | .scalar anchor tag style content => anchored anchor (.scalar anchor tag style content)
  | .sequence anchor tag items =>
      anchored anchor (.sequence anchor tag items) ++ itemTargets items
  | .mapping anchor tag entries =>
      anchored anchor (.mapping anchor tag entries) ++ entryTargets entries

def itemTargets : List (Node Nat) → List (Nat × Node Nat)
  | [] => []
  | item :: rest => item.targets ++ itemTargets rest

def entryTargets : List (Node Nat × Node Nat) → List (Nat × Node Nat)
  | [] => []
  | (key, value) :: rest => key.targets ++ value.targets ++ entryTargets rest

end

mutual

/-- How many scalars, aliases, and ends of sequences and mappings there are. -/
def extent : Node Nat → Nat
  | .alias _ => 1
  | .scalar .. => 1
  | .sequence _ _ items => itemExtent items + 2
  | .mapping _ _ entries => entryExtent entries + 2

def itemExtent : List (Node Nat) → Nat
  | [] => 0
  | item :: rest => item.extent + itemExtent rest

def entryExtent : List (Node Nat × Node Nat) → Nat
  | [] => 0
  | (key, value) :: rest => key.extent + value.extent + entryExtent rest

end

/-- The node at the end of an alias, while there are aliases left that may be followed. -/
private def follow? (known : List (Nat × Node Nat)) : Node Nat → StateM Nat (Option (Node Nat))
  | .alias target => do
      let left ← get
      set (left - 1)
      return if left = 0 then none else (known.find? fun entry => entry.1 == target).map Prod.snd
  | node => return some node

/-- The tree of a node, with nesting up to a depth, and with aliases followed up to a number. -/
def expand (known : List (Nat × Node Nat)) : (depth : Nat) → Node Nat → StateM Nat Yaml
  | 0, node => do
      match ← follow? known node with
      | some (.scalar _ tag style content) => return .scalar tag style content
      | _ => return .refused
  | depth + 1, node => do
      match ← follow? known node with
      | some (.scalar _ tag style content) => return .scalar tag style content
      | some (.sequence _ tag items) => return .sequence tag (← items.mapM (expand known depth))
      | some (.mapping _ tag entries) =>
          return .mapping tag (← entries.mapM fun (key, value) => do
            let key ← expand known depth key
            let value ← expand known depth value
            return (key, value))
      | _ => return .refused

end Node

/-- How deep sequences and mappings may be nested. -/
def nestingLimit : Nat := 128

/-- The tree of a text that is one document. Aliases may be followed a hundred times as often
as the document is long. -/
def read? (text : String) : Option Yaml := do
  let tokens ← Lexer.tokens? text
  let node ← Node.ofTokens? tokens
  let (node, _) ← node.number? []
  return ((node.expand node.targets.reverse nestingLimit).run (100 * node.extent)).1

end Yaml

end Stencil
