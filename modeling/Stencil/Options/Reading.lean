import Stencil.Files
import Stencil.Options
import Stencil.Toml.Reader

/-! Options from files. Keys that are not known are passed over. -/

namespace Stencil

private def textAt? (key default : String) (entries : List (String × Toml)) : Option String :=
  match atKey? key entries with
  | none => some default
  | some (.text content) => some content
  | some _ => none

private def flagOr? (default : Bool) : Option Toml → Option Bool
  | none => some default
  | some (.boolean value) => some value
  | some _ => none

/-- Flags are given under their names or in order. A date has none of the names. -/
def FlowOptions.ofToml? : Toml → Option FlowOptions
  | .table entries => do
      let headers ← flagOr? true (atKey? "headers" entries)
      let footers ← flagOr? true (atKey? "footers" entries)
      let expandPartTables ← flagOr? false (atKey? "expand_part_tables" entries)
      return { headers, footers, expandPartTables }
  | .array items => do
      let headers ← flagOr? true items[0]?
      let footers ← flagOr? true items[1]?
      let expandPartTables ← flagOr? false items[2]?
      return { headers, footers, expandPartTables }
  | .moment _ => some {}
  | _ => none

namespace FillOptions

def ofToml? (entries : List (String × Toml)) : Option FillOptions := do
  let default : FillOptions := {}
  let dateFormat ← textAt? "date_format" default.dateFormat entries
  let sequenceSeparator ← textAt? "sequence_separator" default.sequenceSeparator entries
  let flow ← match atKey? "flow" entries with
    | none => some default.flow
    | some value => FlowOptions.ofToml? value
  return { dateFormat, sequenceSeparator, flow }

def ofText (content : String) : Except FillError FillOptions :=
  match (Toml.read? content).bind ofToml? with
  | none => .error (.configParse "not a file of options")
  | some options => options.validate.map fun _ => options

/-- Where options are looked for, in this order. -/
def fileCandidates : List String := ["docfill.toml", ".docfill.toml", ".config/docfill.toml"]

/-- The path of the first file of options below a root. -/
def findFile? (folder : Folder) (root : String) : Option String :=
  (fileCandidates.map (FilePath.join root)).find? fun path => (folder.file? path).isSome

/-- The options of the first file that is there. -/
def load (folder : Folder) (root : String) : Except FillError (Option FillOptions) :=
  match (findFile? folder root).bind folder.file? with
  | none => .ok none
  | some content =>
      match String.fromUTF8? content with
      | none => .error (.io "stream did not contain valid UTF-8")
      | some content => (ofText content).map some

end FillOptions

end Stencil
