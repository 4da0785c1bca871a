import ScriptContainer.Json.Value

/-!
# Writing JSON

A value is written on one line without blanks, or over several lines with two blanks for each
level. Empty arrays and objects take two characters either way.
-/

namespace ScriptContainer.Json

/-- The characters of a string with this body. -/
def quoted (body : List Char) : List Char := '\x22' :: body ++ ['\x22']

/-- A new line that begins with two blanks for each level. -/
def newline (level : Nat) : List Char := '\n' :: List.replicate (2 * level) ' '

mutual

def compact : Json → List Char
  | null => Token.null.text
  | bool true => Token.true.text
  | bool false => Token.false.text
  | number numeral => numeral.text
  | string body => quoted body
  | array [] => ['[', ']']
  | array (item :: items) => '[' :: (compact item ++ compactItems items)
  | object [] => ['\x7b', '\x7d']
  | object (member :: members) => '\x7b' :: (member.compact ++ compactMembers members)

def Member.compact : Member → List Char
  | ⟨key, value⟩ => quoted key ++ ':' :: Json.compact value

/-- The items after the first one, and the closing bracket. -/
def compactItems : List Json → List Char
  | [] => [']']
  | item :: items => ',' :: (compact item ++ compactItems items)

/-- The members after the first one, and the closing brace. -/
def compactMembers : List Member → List Char
  | [] => ['\x7d']
  | member :: members => ',' :: (member.compact ++ compactMembers members)

end

mutual

/-- A value over several lines, for a value that stands on the given level. -/
def pretty (level : Nat) : Json → List Char
  | null => Token.null.text
  | bool true => Token.true.text
  | bool false => Token.false.text
  | number numeral => numeral.text
  | string body => quoted body
  | array [] => ['[', ']']
  | array (item :: items) =>
    '[' :: (newline (level + 1) ++ pretty (level + 1) item ++ prettyItems level items)
  | object [] => ['\x7b', '\x7d']
  | object (member :: members) =>
    '\x7b' :: (newline (level + 1) ++ member.pretty (level + 1) ++ prettyMembers level members)

/-- A member of an object whose members stand on the given level. -/
def Member.pretty (level : Nat) : Member → List Char
  | ⟨key, value⟩ => quoted key ++ ':' :: ' ' :: Json.pretty level value

/-- The items after the first one, and the closing bracket on the given level. -/
def prettyItems (level : Nat) : List Json → List Char
  | [] => newline level ++ [']']
  | item :: items =>
    ',' :: (newline (level + 1) ++ pretty (level + 1) item ++ prettyItems level items)

/-- The members after the first one, and the closing brace on the given level. -/
def prettyMembers (level : Nat) : List Member → List Char
  | [] => newline level ++ ['\x7d']
  | member :: members =>
    ',' :: (newline (level + 1) ++ member.pretty (level + 1) ++ prettyMembers level members)

end

/-- The text of a value in the chosen form. -/
def render (indented : Bool) (value : Json) : String :=
  String.ofList (if indented then pretty 0 value else compact value)

end ScriptContainer.Json
