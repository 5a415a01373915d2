import Stencil.Error
import Stencil.Files
import Stencil.Json.Data
import Stencil.Toml.Reader
import Stencil.Yaml.Data

/-! Data from files. -/

namespace Stencil

inductive DataFormat where
  | text
  | json
  | toml
  | yaml
  deriving DecidableEq, Repr

namespace DataFormat

def ofName? (name : String) : Option DataFormat :=
  match name with
  | "text" | "string" | "raw" | "txt" => some .text
  | "json" => some .json
  | "toml" => some .toml
  | "yaml" | "yml" => some .yaml
  | _ => none

def read? (content : String) : DataFormat → Option Value
  | text => some (.text content)
  | json => Json.readValue? content
  | toml => Toml.readValue? content
  | yaml => Yaml.readValue? content

end DataFormat

/-- The data that a content stands for. The path is only there for errors. -/
def readData (content format path : String) : Except FillError Value :=
  match DataFormat.ofName? format with
  | none => .error (.unsupportedDataFormat format)
  | some known =>
      match known.read? content with
      | none => .error (.dataFile path ("not valid " ++ format))
      | some value => .ok value

/-- The data in a file, whose extension names the format. -/
def loadData (folder : Folder) (path : String) : Except FillError Value :=
  match folder.file? path with
  | none => .error (.dataFile path "no such file")
  | some content =>
      match String.fromUTF8? content with
      | none => .error (.dataFile path "stream did not contain valid UTF-8")
      | some content => readData content (FilePath.fileExtension path).toLower path

end Stencil
