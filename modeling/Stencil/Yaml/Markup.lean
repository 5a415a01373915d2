import Stencil.Markup
import Stencil.Yaml.Data

/-! YAML trees as markup: the type that is expected decides how a scalar is read, a tag of
one's own names a case, and an empty word is anything without content. -/

namespace Stencil.Yaml

/-- The word of a scalar that may be something else than text: one without quotes, or a literal
one with the tag of the type. -/
private def word? (type : String) : Yaml → Option String
  | .scalar tag style content =>
      if style = .plain || (style = .literal && tag = some (coreTag type)) then some content
      else none
  | _ => none

private def isVoid : Yaml → Bool
  | .scalar _ .plain "" => true
  | _ => false

private def key? : Yaml → Option String
  | .scalar _ _ content => some content
  | _ => none

/-- The case that a tag names. -/
private def caseTag? (tag : Option String) : Option String :=
  tag.bind fun tag => if isOwnTag tag then some (String.ofList tag.toList.tail) else none

/-- A tree without the tag that named a case. -/
private def untagged : Yaml → Yaml
  | .scalar _ style content => .scalar none style content
  | .sequence _ items => .sequence none items
  | .mapping _ entries => .mapping none entries
  | .refused => .refused

private def tagOf : Yaml → Option String
  | .scalar tag _ _ | .sequence tag _ | .mapping tag _ => tag
  | .refused => none

private def isNullScalar : Yaml → Bool
  | .scalar none .plain content => content.isEmpty || isNullWord content
  | _ => false

instance : Markup Yaml where
  scalar?
    | .scalar tag style content => scalarMeaning? tag style content
    | _ => none
  text? := key?
  bool? tree := (word? "bool" tree).bind boolOf?
  natural? tree := (word? "int" tree).bind naturalOf?
  integer? tree := (word? "int" tree).bind integerOf?
  float? tree := (word? "float" tree).bind floatOf?
  items?
    | .sequence _ items => some items
    | tree => if isVoid tree then some [] else none
  members?
    | .mapping _ entries => entries.mapM fun (key, entry) => (key? key).map (·, entry)
    | tree => if isVoid tree then some [] else none
  fieldsInOrder? _ := none
  indexed?
    | .mapping _ entries => entries.mapM fun (key, entry) =>
        ((word? "int" key).bind naturalOf?).map (·, entry)
    | tree => if isVoid tree then some [] else none
  isLeftOut?
    | .scalar tag .plain content =>
        match tag with
        | none => some (content.isEmpty || isNullWord content)
        | some tag =>
            if tag != coreTag "null" then some false
            else if isNullWord content then some true
            else none
    | _ => some false
  bareCase? tree :=
    match caseTag? (tagOf tree) with
    | some name => if isNullScalar (untagged tree) then some name else none
    | none => key? tree
  caseWith? tree := (caseTag? (tagOf tree)).map (·, untagged tree)

end Stencil.Yaml
