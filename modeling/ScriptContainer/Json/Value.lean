import ScriptContainer.Json.Token

/-!
# JSON values

A value is a tree whose numerals and strings stand as they are written; what they mean is for the
reader of the value to say. A text is read token by token onto a stack of open arrays and objects,
so nesting is not limited.
-/

namespace ScriptContainer

open Number

mutual

/-- A value of JSON text. -/
inductive Json where
  | null
  | bool (value : Bool)
  | number (numeral : Numeral)
  | string (body : List Char)
  | array (items : List Json)
  | object (members : List Json.Member)

/-- A key, as it is written, and its value. -/
structure Json.Member where
  key : List Char
  value : Json

end

instance : Inhabited Json := ⟨.null⟩

namespace Json

/-- An array or object whose end has not been reached, what it holds so far in reverse. -/
inductive Frame where
  | array (items : List Json)
  | object (members : List Member) (key : List Char)

/-- What the next token has to be. -/
inductive Awaited where
  | value
  | valueOrClose
  | key (members : List Member)
  | keyOrClose
  | colon
  | commaOrClose
  | commaOrCloseObject (members : List Member)
  | nothing (result : Json)

/-- The open arrays and objects, the innermost first, and what comes next. -/
structure Progress where
  awaited : Awaited
  stack : List Frame

/-- Progress after a value has ended. -/
def Progress.finish (stack : List Frame) (value : Json) : Progress :=
  match stack with
  | [] => ⟨.nothing value, []⟩
  | .array items :: outer => ⟨.commaOrClose, .array (value :: items) :: outer⟩
  | .object members key :: outer => ⟨.commaOrCloseObject (⟨key, value⟩ :: members), outer⟩

/-- Progress after the first token of a value. -/
def Progress.start (stack : List Frame) : Token → Option Progress
  | .null => some (finish stack .null)
  | .true => some (finish stack (.bool true))
  | .false => some (finish stack (.bool false))
  | .number numeral => some (finish stack (.number numeral))
  | .string body => some (finish stack (.string body))
  | .openArray => some ⟨.valueOrClose, .array [] :: stack⟩
  | .openObject => some ⟨.keyOrClose, stack⟩
  | _ => none

def Progress.step (p : Progress) (token : Token) : Option Progress :=
  match p.awaited, token with
  | .value, token => start p.stack token
  | .valueOrClose, .closeArray =>
    match p.stack with
    | .array items :: outer => some (finish outer (.array items.reverse))
    | _ => none
  | .valueOrClose, token => start p.stack token
  | .key members, .string body => some ⟨.colon, .object members body :: p.stack⟩
  | .keyOrClose, .string body => some ⟨.colon, .object [] body :: p.stack⟩
  | .keyOrClose, .closeObject => some (finish p.stack (.object []))
  | .colon, .colon => some ⟨.value, p.stack⟩
  | .commaOrClose, .comma => some ⟨.value, p.stack⟩
  | .commaOrClose, .closeArray =>
    match p.stack with
    | .array items :: outer => some (finish outer (.array items.reverse))
    | _ => none
  | .commaOrCloseObject members, .comma => some ⟨.key members, p.stack⟩
  | .commaOrCloseObject members, .closeObject =>
    some (finish p.stack (.object members.reverse))
  | _, _ => none

/-- The value that a list of tokens makes up. -/
def ofTokens? (tokens : List Token) : Option Json :=
  match tokens.foldlM Progress.step ⟨.value, []⟩ with
  | some ⟨.nothing value, _⟩ => some value
  | _ => none

def parse? (text : List Char) : Option Json := (tokens? text).bind ofTokens?

end Json

end ScriptContainer
