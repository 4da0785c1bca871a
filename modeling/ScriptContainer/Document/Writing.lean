import ScriptContainer.Document.Basic
import ScriptContainer.Json.Field
import ScriptContainer.Json.Render

/-!
# Writing documents

Members stand in a fixed order. A name that is missing is left out, and so are the empty lists of
what a function owns and empty filler words.
-/

namespace ScriptContainer

open Number Json

namespace Json

def ofMembers (members : List (String × Json)) : Json :=
  .object (members.map fun (key, value) => member key value)

/-- The array of values written by the same rule. -/
def ofList {α : Type} (write : α → Json) (items : List α) : Json := .array (items.map write)

/-- An object with one member, which tells by its key what the value is. -/
def ofTagged (tag : String) (value : Json) : Json := ofMembers [(tag, value)]

/-- The value written for a float: a numeral, or null where there is none. -/
def ofSingle (x : Single) : Json :=
  if x.isFinite then .number (FloatStyle.document.numeral x) else .null

/-- The value written for a byte. -/
def ofByte (b : UInt8) : Json := ofNat b.toNat

/-- The value written for a signed integer. -/
def ofSigned (n : Int32) : Json := ofInt n.toInt

/-- The member for a name, if there is one. -/
def nameMember : Option String → List (String × Json)
  | some name => [("name", ofText name)]
  | none => []

/-- The member for a list, unless it is empty. -/
def listMember {α : Type} (key : String) (write : α → Json) (items : List α) :
    List (String × Json) :=
  if items.isEmpty then [] else [(key, ofList write items)]

end Json

/-- The word for a storage class. -/
def Scope.word : Scope → String
  | temporary => "tmp"
  | constant => "const"
  | owned => "local"
  | static => "static"
  | global => "global"

def Import.toJson (i : Import) : Json :=
  ofMembers ([("id", ofWord i.id)] ++ nameMember i.name ++
    [("unknown", ofList ofWord i.unknown.toList)])

def Label.toJson (l : Label) : Json :=
  ofMembers ([("id", ofWord l.id)] ++ nameMember l.name ++ [("address", ofWord l.address)])

/-- The word for an opcode in a document. -/
def Opcode.word : Opcode → String
  | nop => "nop"
  | returnVal => "return_val"
  | label => "label"
  | getArgs => "get_args"
  | thread => "thread"
  | thread2 => "thread2"
  | .return => "return"
  | goto => "goto"
  | call => "call"
  | callAsThread => "call_as_thread"
  | callAsChildThread => "call_as_child_thread"
  | deleteRuntime => "delete_runtime"
  | unsure10 => "unsure10"
  | wait => "wait"
  | waitMs => "wait_ms"
  | .if => "if"
  | .else => "else"
  | elseIf => "else_if"
  | endIf => "end_if"
  | switch => "switch"
  | case => "case"
  | case2 => "case2"
  | breakSwitch => "break_switch"
  | endSwitch => "end_switch"
  | doWhile => "do_while"
  | .break => "break"
  | endDoWhile => "end_do_while"
  | set => "set"
  | readTableLength => "read_table_length"
  | getIndex => "get_index"
  | unsure0 => "unsure0"
  | unsure1 => "unsure1"
  | unsure2 => "unsure2"
  | unsure5 => "unsure5"
  | unsure3 => "unsure3"
  | unsure4 => "unsure4"
  | waitCompleted => "wait_completed"
  | unsure9 => "unsure9"
  | unsure11 => "unsure11"
  | unsure8 => "unsure8"
  | unsure7 => "unsure7"
  | unsure6 => "unsure6"

mutual

def Token.toJson : Token .spelled → Json
  | .symbol ref => ofTagged "symbol" (ofText ref)
  | .operator operator => ofTagged "op" (ofText operator)
  | .call call => ofTagged "call" (Call.toJson call)

def Call.toJson : Call .spelled → Json
  | ⟨callee, args⟩ => ofMembers [("callee", ofText callee), ("args", .array (argumentsToJson args))]

/-- An argument as a string or an array. -/
def Argument.toJson : Argument .spelled → Json
  | .symbol ref => ofText ref
  | .expr tokens => .array (tokensToJson tokens)

def argumentsToJson : List (Argument .spelled) → List Json
  | [] => []
  | arg :: args => Argument.toJson arg :: argumentsToJson args

def tokensToJson : List (Token .spelled) → List Json
  | [] => []
  | token :: tokens => Token.toJson token :: tokensToJson tokens

end

def expressionToJson (tokens : Expression .spelled) : Json := .array (tokensToJson tokens)

/-- An operand as a string or an array. -/
def Operand.toJson : Operand .spelled → Json
  | var ref => ofText ref
  | expr tokens => expressionToJson tokens

def Call.members (call : Call .spelled) : List (String × Json) :=
  [("callee", ofText call.callee), ("args", .array (argumentsToJson call.args))]

/-- The members of a started thread. -/
def Spawn.members (spawn : Spawn .spelled) : List (String × Json) :=
  [("callee", ofText spawn.callee), ("take", ofList ofWord spawn.take),
    ("give", ofList ofText spawn.give)]

namespace Instruction

/-- The members of an instruction beside its opcode. -/
def members : Instruction .spelled → List (String × Json)
  | returnVal value | deleteRuntime value | wait value | waitMs value | waitCompleted value =>
    [("value", value.toJson)]
  | getArgs function args => [("function", ofText function), ("args", ofList ofText args)]
  | thread spawn | thread2 spawn => spawn.members
  | goto target => [("label", ofText target)]
  | call c | callAsThread c | callAsChildThread c => c.members
  | .if condition target unknown1 unknown2 =>
    [("condition", expressionToJson condition), ("target", ofWord target),
      ("unknown", ofList ofWord [unknown1, unknown2])]
  | .else target => [("target", ofWord target)]
  | elseIf skipTarget unknown1 condition target unknown3 unknown4 =>
    [("condition", expressionToJson condition), ("target", ofWord target),
      ("skip_target", ofWord skipTarget),
      ("unknown", ofList ofWord [unknown1, unknown3, unknown4])]
  | switch value entry exit =>
    [("value", ofText value), ("entry", ofWord entry), ("exit", ofWord exit)]
  | case value target | case2 value target =>
    [("value", ofText value), ("target", ofWord target)]
  | doWhile condition target => [("condition", condition.toJson), ("target", ofWord target)]
  | set assignee value => [("assignee", ofText assignee), ("value", value.toJson)]
  | readTableLength table => [("table", ofText table)]
  | getIndex table occurrence result =>
    [("table", ofText table), ("occurrence", ofText occurrence), ("variable", ofText result)]
  | unsure2 expr | unsure9 expr => [("expr", expressionToJson expr)]
  | unsure3 first imported second =>
    [("first", ofText first), ("import", ofText imported), ("second", ofText second)]
  | unsure4 var => [("var", ofText var)]
  | unsure7 a b c d => [("vars", ofList ofText [a, b, c, d])]
  | unsure8 a b c => [("vars", ofList ofText [a, b, c])]
  | unsure11 var table => [("var", ofText var), ("table", ofText table)]
  | nop | label | .return | endIf | breakSwitch | endSwitch | .break | endDoWhile | unsure1 => []

def toJson (instruction : Instruction .spelled) : Json :=
  ofMembers (("op", ofText instruction.opcode.word) :: instruction.members)

end Instruction

namespace Document

def Value.toJson : Value → Json
  | int value => ofTagged "int" (ofSigned value)
  | float value => ofTagged "float" (ofSingle value)
  | floatBits bits => ofTagged "float_bits" (ofWord bits)
  | string text => ofTagged "string" (ofText text)
  | raw code value => ofTagged "raw" (ofMembers [("code", ofWord code), ("value", ofWord value)])

def Variable.toJson (v : Variable) : Json :=
  ofMembers ([("id", ofWord v.id)] ++ nameMember v.name ++
    [("scope", ofText v.scope.word), ("flags", ofByte v.flags), ("value", v.value.toJson)])

/-- The elements of a table as an object. -/
def valuesToJson : TableValues String → Json
  | .vars values => ofTagged "variable" (ofList ofText values)
  | .ints values => ofTagged "int" (ofList ofSigned values)
  | .floats values => ofTagged "float" (ofList ofSingle values)
  | .bytes values => ofTagged "byte" (ofList ofByte values)

def Table.toJson (t : Table) : Json :=
  ofMembers ([("id", ofWord t.id)] ++ nameMember t.name ++
    [("start_offset", ofWord t.start), ("values", valuesToJson t.values)])

def Function.toJson (f : Function) : Json :=
  ofMembers ([("id", ofWord f.id)] ++ nameMember f.name ++
    [("public", .bool f.isPublic), ("inline", .bool f.isInline),
      ("declared", .bool f.isDeclared), ("unknown", ofList ofWord f.unknown.toList),
      ("code_start", ofWord f.codeStart), ("code_end", ofWord f.codeEnd)] ++
    listMember "variables" Variable.toJson f.vars ++
    listMember "tables" Table.toJson f.tables ++
    listMember "labels" Label.toJson f.labels ++
    [("code", ofList Instruction.toJson f.code)])

/-- Filler words as an array of three arrays. -/
def paddingToJson (p : Padding) : Json := ofList (ofList ofWord) [p.front, p.tables, p.code]

def toJson (d : Document) : Json :=
  ofMembers ([("imports", ofList Import.toJson d.imports),
    ("variables", ofList Variable.toJson d.vars),
    ("tables", ofList Table.toJson d.tables),
    ("functions", ofList Function.toJson d.functions)] ++
    (if d.padding.isNone then [] else [("padding", paddingToJson d.padding)]))

/-- The text of a document, on one line or indented. -/
def text (indented : Bool) (d : Document) : String := Json.render indented d.toJson

end Document

end ScriptContainer
