import Stencil.Json.Lexer

/-! Reading the tree that tokens spell. The reader is a machine that takes one token at a time
and keeps the arrays and objects that are still open. -/

namespace Stencil.Json

/-- An open array or object with what it holds so far, the last first. -/
inductive Frame where
  | items (held : List Json)
  | members (held : List (String × Json)) (key : String)

/-- What may come next. -/
inductive Expect where
  | value
  /-- The first item of an array, or its end. -/
  | itemOrEnd
  /-- The first key of an object, or its end. -/
  | keyOrEnd
  | key (held : List (String × Json))
  | colon (held : List (String × Json)) (key : String)
  /-- A value is complete. -/
  | done (tree : Json)

structure State where
  frames : List Frame
  expect : Expect

namespace State

def start : State := ⟨[], .value⟩

def complete (frames : List Frame) (tree : Json) : Option State := some ⟨frames, .done tree⟩

def beginValue (frames : List Frame) : Token → Option State
  | .null => complete frames .null
  | .bool value => complete frames (.bool value)
  | .number lexeme => complete frames (.number lexeme)
  | .text content => complete frames (.text content)
  | .openArray => some ⟨.items [] :: frames, .itemOrEnd⟩
  | .openObject => some ⟨frames, .keyOrEnd⟩
  | _ => none

def afterValue (tree : Json) : List Frame → Token → Option State
  | .items held :: frames, .comma => some ⟨.items (tree :: held) :: frames, .value⟩
  | .items held :: frames, .closeArray => complete frames (.array (tree :: held).reverse)
  | .members held key :: frames, .comma => some ⟨frames, .key ((key, tree) :: held)⟩
  | .members held key :: frames, .closeObject =>
      complete frames (.object ((key, tree) :: held).reverse)
  | _, _ => none

def step (s : State) (token : Token) : Option State :=
  match s.expect with
  | .value => beginValue s.frames token
  | .itemOrEnd =>
      match token, s.frames with
      | .closeArray, _ :: frames => complete frames (.array [])
      | token, frames => beginValue frames token
  | .keyOrEnd =>
      match token with
      | .closeObject => complete s.frames (.object [])
      | .text (some key) => some ⟨s.frames, .colon [] key⟩
      | _ => none
  | .key held =>
      match token with
      | .text (some key) => some ⟨s.frames, .colon held key⟩
      | _ => none
  | .colon held key =>
      match token with
      | .colon => some ⟨.members held key :: s.frames, .value⟩
      | _ => none
  | .done tree => afterValue tree s.frames token

def run (s : State) : List Token → Option State
  | [] => some s
  | token :: rest => (s.step token).bind fun s => s.run rest

end State

/-- The tree of a text that is one JSON value. -/
def read? (text : String) : Option Json := do
  let tokens ← lex? text.toList
  match ← State.start.run tokens with
  | ⟨[], .done tree⟩ => some tree
  | _ => none

end Stencil.Json
