import Stencil.Yaml.Tree
import Stencil.Yaml.Word

/-! YAML as data. Keys are texts whatever they look like, and tags of one's own are refused. -/

namespace Stencil.Yaml

/-- The tag of a type that every document knows. -/
def coreTag (name : String) : String := "tag:yaml.org,2002:" ++ name

/-- A tag that is not one of those that every document knows. -/
def isOwnTag (tag : String) : Bool := tag.startsWith "!"

/-- What a scalar stands for. A tag decides about the type; without one, words are looked at
and other scalars are text. -/
def scalarMeaning? (tag : Option String) (style : Style) (content : String) : Option Scalar :=
  match tag with
  | some tag =>
      if isOwnTag tag then none
      else if tag = coreTag "bool" then (boolOf? content).map .bool
      else if tag = coreTag "int" then (integerScalar? content).join
      else if tag = coreTag "float" then (floatOf? content).map .float
      else if tag = coreTag "null" then if isNullWord content then some .null else none
      else some (.text content)
  | none => if style = .plain then wordScalar? content else some (.text content)

mutual

def toValue? : Yaml → Option Value
  | .scalar tag style content => (scalarMeaning? tag style content).map Scalar.toValue
  | .sequence tag items => if tag.any isOwnTag then none else (itemValues? items).map .sequence
  | .mapping tag entries =>
      if tag.any isOwnTag then none else (entryValues? entries).map Value.ofEntries
  | .refused => none

def itemValues? : List Yaml → Option (List Value)
  | [] => some []
  | item :: rest => do
      let value ← item.toValue?
      let values ← itemValues? rest
      return value :: values

def entryValues? : List (Yaml × Yaml) → Option (List (String × Value))
  | [] => some []
  | (.scalar _ _ key, entry) :: rest => do
      let value ← entry.toValue?
      let values ← entryValues? rest
      return (key, value) :: values
  | _ :: _ => none

end

def readValue? (text : String) : Option Value := (read? text).bind toValue?

end Stencil.Yaml
