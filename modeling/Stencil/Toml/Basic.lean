import Stencil.Toml.Moment

/-! TOML values, and tables while they are put together. An integer may be wider than data can
hold, which only matters where somebody asks for it. -/

namespace Stencil

inductive Toml where
  | text (content : String)
  | integer (value : Int)
  | float (value : Binary64)
  | boolean (value : Bool)
  | moment (value : Toml.Moment)
  | array (items : List Toml)
  | table (entries : List (String × Toml))

namespace Toml

mutual

/-- The value as data, none where an integer is too wide. -/
def toValue? : Toml → Option Value
  | .text content => some (.text content)
  | .integer n =>
      if -(1 <<< 63 : Nat) ≤ n ∧ n < (1 <<< 63 : Nat) then some (.int (Int64.ofInt n)) else none
  | .float x => some (.float x)
  | .boolean b => some (.bool b)
  | .moment m => some m.toValue
  | .array items => (itemValues? items).map .sequence
  | .table entries => (entryValues? entries).map .mapping

def itemValues? : List Toml → Option (List Value)
  | [] => some []
  | item :: rest => do
      let value ← item.toValue?
      let values ← itemValues? rest
      return value :: values

def entryValues? : List (String × Toml) → Option (List (String × Value))
  | [] => some []
  | (key, entry) :: rest => do
      let value ← entry.toValue?
      let values ← entryValues? rest
      return (key, value) :: values

end

/-- What a table was made by, which decides who may add to it. -/
inductive Origin where
  /-- A header of its own. -/
  | header
  /-- The header of a table below it. -/
  | implied
  /-- A dotted key. -/
  | dotted
  deriving DecidableEq, Repr

/-- An entry of a table that is not finished. -/
inductive Draft where
  /-- A value, to which nothing can be added. -/
  | fixed (value : Toml)
  | table (origin : Origin) (entries : List (String × Draft))
  /-- Tables under one header in double brackets, the last first. -/
  | tables (drafts : List (List (String × Draft)))

namespace Draft

mutual

def finish : Draft → Toml
  | .fixed value => value
  | .table _ entries => .table (finishEntries entries)
  | .tables drafts => .array (finishTables drafts).reverse

def finishEntries : List (String × Draft) → List (String × Toml)
  | [] => []
  | (key, draft) :: rest => (key, draft.finish) :: finishEntries rest

def finishTables : List (List (String × Draft)) → List Toml
  | [] => []
  | entries :: rest => .table (finishEntries entries) :: finishTables rest

end

abbrev Entries := List (String × Draft)

private def replaceAt (key : String) (draft : Draft) : Entries → Entries
  | [] => []
  | (k, d) :: rest => if k = key then (k, draft) :: rest else (k, d) :: replaceAt key draft rest

/-- Change the table at a path. Tables that are missing are made; a dotted key does not enter
tables with a header of their own. -/
def changeAt (dotted : Bool) (change : Origin → Entries → Option Entries) :
    List String → Origin → Entries → Option Entries
  | [], origin, entries => change origin entries
  | key :: path, _, entries =>
      match atKey? key entries with
      | none =>
          let origin := if dotted then Origin.dotted else .implied
          (changeAt dotted change path origin []).map fun inner =>
            entries ++ [(key, .table origin inner)]
      | some (.fixed _) => none
      | some (.table origin inner) =>
          if dotted && origin == .header then none
          else (changeAt dotted change path origin inner).map fun inner =>
            replaceAt key (.table origin inner) entries
      | some (.tables (last :: before)) =>
          (changeAt dotted change path .header last).map fun last =>
            replaceAt key (.tables (last :: before)) entries
      | some (.tables []) => none

private def addNew (key : String) (draft : Draft) (entries : Entries) : Option Entries :=
  match atKey? key entries with
  | none => some (entries ++ [(key, draft)])
  | some _ => none

/-- Add a value under a dotted key. A key with dots only adds to tables made by dotted keys. -/
def addValue (path : List String) (key : String) (value : Toml) (entries : Entries) :
    Option Entries :=
  let dotted := !path.isEmpty
  changeAt dotted (fun origin entries =>
    if (origin == .dotted) == dotted then addNew key (.fixed value) entries else none)
    path .header entries

/-- The entries that a table already has when its header is met, and the others around it. Only
a table implied by headers below it can be there. -/
private def takeImplied (key : String) (entries : Entries) : Option (Entries × Entries) :=
  match atKey? key entries with
  | none => some ([], entries)
  | some (.table .implied inner) => some (inner, entries.filter fun entry => entry.1 != key)
  | some _ => none

/-- Add the table of a header, built on the entries that it already has. It takes its place
behind all others. -/
def addTable (path : List String) (key : String) (build : Entries → Option Entries)
    (entries : Entries) : Option Entries :=
  changeAt false (fun _ entries => do
    let (inner, others) ← takeImplied key entries
    let inner ← build inner
    return others ++ [(key, .table .header inner)]) path .header entries

/-- Add a table to those under one header in double brackets. -/
def addToTables (path : List String) (key : String) (build : Entries → Option Entries)
    (entries : Entries) : Option Entries :=
  changeAt false (fun _ entries => do
    let inner ← build []
    match atKey? key entries with
    | none => some (entries ++ [(key, .tables [inner])])
    | some (.tables before) => some (replaceAt key (.tables (inner :: before)) entries)
    | some _ => none) path .header entries

end Draft

end Toml

end Stencil
