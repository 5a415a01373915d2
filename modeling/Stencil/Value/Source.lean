import Stencil.Value.Path

/-! What a fill reads from: the data, below an optional scope, and named sections of it. -/

namespace Stencil

/-- A named view of a node. The empty section stands for a path that leads nowhere. -/
structure Section where
  key : String := ""
  path : String := ""
  value : Option Value := none
  format : Option String := none

/-- The section of a node at a path, under the name `path`. -/
def Value.sectionAt (node : Value) (relative path : String) : Section :=
  match node.resolve? relative with
  | some found => ⟨found.key, path, some found.value, found.format⟩
  | none => {}

/-- One section for each key of a node. Every key is resolved as a path. -/
def Value.sectionsUnder (node : Value) (base : String) : List Section :=
  node.childKeys.map fun key => node.sectionAt key (Path.join base key)

/-- Data with a path that comes before every path looked up in it. -/
structure Source where
  root : Value
  scope : Option String

namespace Source

def ofValue (root : Value) : Source := ⟨root, none⟩

/-- Look up below a path instead. An empty path is no scope. -/
def below (source : Source) (path : String) : Source :=
  { source with scope := if path = "" then none else some path }

/-- A path as seen from the root. -/
def qualify (source : Source) (path : String) : String :=
  match source.scope with
  | some scope => Path.join scope path
  | none => path

def get? (source : Source) (path : String) : Option Resolved :=
  source.root.resolve? (source.qualify path)

def items? (source : Source) (path : String) : Option (List Value) :=
  source.root.resolveItems? (source.qualify path)

def sectionOf (source : Source) (path : String) : Section :=
  source.root.sectionAt (source.qualify path) path

end Source

namespace Section

def isEmpty (s : Section) : Bool := s.key == "" && s.value.isNone

def source? (s : Section) : Option Source := s.value.map Source.ofValue

def get? (s : Section) (path : String) : Option Resolved :=
  s.value.bind fun node => node.resolve? path

def sectionOf (s : Section) (path : String) : Section :=
  match s.value with
  | some node => node.sectionAt path (Path.join s.path path)
  | none => {}

def children (s : Section) : List Section :=
  match s.value with
  | some node => node.sectionsUnder s.path
  | none => []

end Section

/-- The sections of the scope, named relative to it. -/
def Source.children (source : Source) : List Section :=
  match source.scope with
  | some scope => (source.root.sectionAt scope "").children
  | none => source.root.sectionsUnder ""

end Stencil
