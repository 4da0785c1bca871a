import ScriptContainer.Document.Writing

/-!
# Reading documents

Members may stand in any order and members without a meaning are left alone. Members that a build
sets anew, and lists, may be missing. An instruction is taken up as a whole before it is taken
apart, so its numbers and strings have to be readable and its nesting is limited even where it
holds members without a meaning.
-/

namespace ScriptContainer

open Number Json

/-- The levels of arrays and objects that an instruction may hold, itself included: of 127 levels
in all, four lie around it. -/
def instructionLevels : Nat := 123

/-- The word for a storage class, also as the key of an object that holds null. -/
def Scope.ofJson? (value : Json) : Option Scope :=
  let word := match value with
    | .object _ =>
      match tagged? value with
      | some (word, .null) => some word
      | _ => none
    | _ => text? value
  match word with
  | some "tmp" => some .temporary
  | some "const" => some .constant
  | some "local" => some .owned
  | some "static" => some .static
  | some "global" => some .global
  | _ => none

def words3? (value : Json) : Option Words3 := (list? word? value).bind Words3.ofList?

def words5? (value : Json) : Option Words5 := (list? word? value).bind Words5.ofList?

def Import.ofJson? (value : Json) : Option Import := do
  let fields ← fields? value
  let id ← fields.required "id" word?
  let name ← fields.optional "name" (nullable? text?) none
  let unknown ← fields.optional "unknown" words5? .zero
  return ⟨id, name, unknown⟩

def Label.ofJson? (value : Json) : Option Label := do
  let fields ← fields? value
  let id ← fields.required "id" word?
  let name ← fields.optional "name" (nullable? text?) none
  let address ← fields.optional "address" word? 0
  return ⟨id, name, address⟩

mutual

/-- A token, within a number of steps of taking apart. -/
def Token.ofJson? : Nat → Json → Option (Token .spelled)
  | 0, _ => none
  | steps + 1, value =>
    match tagged? value with
    | some ("symbol", ref) => .symbol <$> text? ref
    | some ("op", operator) => .operator <$> text? operator
    | some ("call", call) => (fields? call).bind fun fields => .call <$> Call.ofFields? steps fields
    | _ => none

/-- A call, within a number of steps of taking apart. -/
def Call.ofFields? : Nat → Fields → Option (Call .spelled)
  | 0, _ => none
  | steps + 1, fields => do
    let callee ← fields.required "callee" text?
    let args ← fields.optional "args" (list? (Argument.ofJson? steps)) []
    return ⟨callee, args⟩

/-- An argument, within a number of steps of taking apart. -/
def Argument.ofJson? : Nat → Json → Option (Argument .spelled)
  | 0, _ => none
  | steps + 1, value =>
    match value with
    | .string _ => .symbol <$> text? value
    | _ => .expr <$> list? (Token.ofJson? steps) value

end

/-- Steps of taking apart for any value within the levels of an instruction: each level of
nesting is entered by less than two steps. -/
def instructionSteps : Nat := 2 * instructionLevels

def expressionOfJson? : Json → Option (Expression .spelled) :=
  list? (Token.ofJson? instructionSteps)

def Operand.ofJson? (value : Json) : Option (Operand .spelled) :=
  match value with
  | .string _ => .var <$> text? value
  | _ => .expr <$> expressionOfJson? value

/-- The operands of a started thread. -/
def Spawn.ofFields? (fields : Fields) : Option (Spawn .spelled) := do
  let callee ← fields.required "callee" text?
  let take ← fields.optional "take" (list? word?) []
  let give ← fields.optional "give" (list? text?) []
  return ⟨callee, take, give⟩

namespace Instruction

/-- A jump target, which may be missing. -/
def target? (fields : Fields) (key : String) : Option UInt32 := fields.optional key word? 0

/-- An instruction with the given opcode. -/
def ofFields? (fields : Fields) : Opcode → Option (Instruction .spelled)
  | .nop => some nop
  | .returnVal => returnVal <$> fields.required "value" Operand.ofJson?
  | .label => some label
  | .getArgs => do
    let function ← fields.required "function" text?
    let args ← fields.optional "args" (list? text?) []
    return getArgs function args
  | .thread => thread <$> Spawn.ofFields? fields
  | .thread2 => thread2 <$> Spawn.ofFields? fields
  | .return => some .return
  | .goto => goto <$> fields.required "label" text?
  | .call => call <$> Call.ofFields? instructionSteps fields
  | .callAsThread => callAsThread <$> Call.ofFields? instructionSteps fields
  | .callAsChildThread => callAsChildThread <$> Call.ofFields? instructionSteps fields
  | .deleteRuntime => deleteRuntime <$> fields.required "value" Operand.ofJson?
  | .wait => wait <$> fields.required "value" Operand.ofJson?
  | .waitMs => waitMs <$> fields.required "value" Operand.ofJson?
  | .if => do
    let condition ← fields.required "condition" expressionOfJson?
    let target ← target? fields "target"
    let unknown ← fields.optional "unknown" (list? word?) [0, 0]
    match unknown with
    | [unknown1, unknown2] => some (.if condition target unknown1 unknown2)
    | _ => none
  | .else => .else <$> target? fields "target"
  | .elseIf => do
    let condition ← fields.required "condition" expressionOfJson?
    let target ← target? fields "target"
    let skipTarget ← target? fields "skip_target"
    let unknown ← fields.optional "unknown" words3? .zero
    return elseIf skipTarget unknown.a condition target unknown.b unknown.c
  | .endIf => some endIf
  | .switch => do
    let value ← fields.required "value" text?
    let entry ← target? fields "entry"
    let exit ← target? fields "exit"
    return switch value entry exit
  | .case => do
    let value ← fields.required "value" text?
    let target ← target? fields "target"
    return case value target
  | .case2 => do
    let value ← fields.required "value" text?
    let target ← target? fields "target"
    return case2 value target
  | .breakSwitch => some breakSwitch
  | .endSwitch => some endSwitch
  | .doWhile => do
    let condition ← fields.required "condition" Operand.ofJson?
    let target ← target? fields "target"
    return doWhile condition target
  | .break => some .break
  | .endDoWhile => some endDoWhile
  | .set => do
    let assignee ← fields.required "assignee" text?
    let value ← fields.required "value" Operand.ofJson?
    return set assignee value
  | .readTableLength => readTableLength <$> fields.required "table" text?
  | .getIndex => do
    let table ← fields.required "table" text?
    let occurrence ← fields.required "occurrence" text?
    let result ← fields.required "variable" text?
    return getIndex table occurrence result
  | .waitCompleted => waitCompleted <$> fields.required "value" Operand.ofJson?
  | .unsure1 => some unsure1
  | .unsure2 => unsure2 <$> fields.required "expr" expressionOfJson?
  | .unsure3 => do
    let first ← fields.required "first" text?
    let imported ← fields.required "import" text?
    let second ← fields.required "second" text?
    return unsure3 first imported second
  | .unsure4 => unsure4 <$> fields.required "var" text?
  | .unsure7 => do
    match ← fields.required "vars" (list? text?) with
    | [a, b, c, d] => some (unsure7 a b c d)
    | _ => none
  | .unsure8 => do
    match ← fields.required "vars" (list? text?) with
    | [a, b, c] => some (unsure8 a b c)
    | _ => none
  | .unsure9 => unsure9 <$> fields.required "expr" expressionOfJson?
  | .unsure11 => do
    let var ← fields.required "var" text?
    let table ← fields.required "table" text?
    return unsure11 var table
  | .unsure0 | .unsure5 | .unsure6 | .unsure10 => none

def opcodeOfWord? (word : String) : Option Opcode := Opcode.all.find? fun op => op.word == word

def ofJson? (value : Json) : Option (Instruction .spelled) := do
  if value.isSound instructionLevels then
    let fields ← fields? value
    let word ← fields.required "op" text?
    let opcode ← opcodeOfWord? word
    ofFields? fields opcode
  else none

end Instruction

namespace Document

def Value.ofJson? (value : Json) : Option Value :=
  match tagged? value with
  | some ("int", value) => .int <$> signed? value
  | some ("float", value) => .float <$> single? value
  | some ("float_bits", value) => .floatBits <$> word? value
  | some ("string", value) => .string <$> text? value
  | some ("raw", value) => do
    let fields ← fields? value
    let code ← fields.required "code" word?
    let word ← fields.required "value" word?
    return .raw code word
  | _ => none

def Variable.ofJson? (value : Json) : Option Variable := do
  let fields ← fields? value
  let id ← fields.required "id" word?
  let name ← fields.optional "name" (nullable? text?) none
  let scope ← fields.required "scope" Scope.ofJson?
  let flags ← fields.optional "flags" byte? 0
  let value ← fields.required "value" Value.ofJson?
  return ⟨id, name, scope, flags, value⟩

def valuesOfJson? (value : Json) : Option (TableValues String) :=
  match tagged? value with
  | some ("variable", value) => .vars <$> list? text? value
  | some ("int", value) => .ints <$> list? signed? value
  | some ("float", value) => .floats <$> list? single? value
  | some ("byte", value) => .bytes <$> list? byte? value
  | _ => none

def Table.ofJson? (value : Json) : Option Table := do
  let fields ← fields? value
  let id ← fields.required "id" word?
  let name ← fields.optional "name" (nullable? text?) none
  let start ← fields.optional "start_offset" word? 0
  let values ← fields.required "values" valuesOfJson?
  return ⟨id, name, start, values⟩

def Function.ofJson? (value : Json) : Option Function := do
  let fields ← fields? value
  let id ← fields.required "id" word?
  let name ← fields.optional "name" (nullable? text?) none
  let isPublic ← fields.optional "public" bool? false
  let isInline ← fields.optional "inline" bool? false
  let isDeclared ← fields.optional "declared" bool? true
  let unknown ← fields.optional "unknown" words3? .zero
  let codeStart ← fields.optional "code_start" word? 0
  let codeEnd ← fields.optional "code_end" word? 0
  let vars ← fields.optional "variables" (list? Variable.ofJson?) []
  let tables ← fields.optional "tables" (list? Table.ofJson?) []
  let labels ← fields.optional "labels" (list? Label.ofJson?) []
  let code ← fields.optional "code" (list? Instruction.ofJson?) []
  return ⟨id, name, isPublic, isInline, isDeclared, unknown, codeStart, codeEnd, vars, tables,
    labels, code⟩

def paddingOfJson? (value : Json) : Option Padding := do
  match ← list? (list? word?) value with
  | [front, tables, code] => some ⟨front, tables, code⟩
  | _ => none

def ofJson? (value : Json) : Option Document := do
  let fields ← fields? value
  let imports ← fields.optional "imports" (list? Import.ofJson?) []
  let vars ← fields.optional "variables" (list? Variable.ofJson?) []
  let tables ← fields.optional "tables" (list? Table.ofJson?) []
  let functions ← fields.optional "functions" (list? Function.ofJson?) []
  let padding ← fields.optional "padding" paddingOfJson? .none
  return ⟨imports, vars, tables, functions, padding⟩

/-- The document of a text. Each record has to be an object. A reader that also takes a record from
the array of its members, so that `[]` is a document of defaults, accepts more texts; no text that is
written for a document has this form. -/
def ofText? (text : String) : Option Document := (Json.parse? text.toList).bind ofJson?

end Document

end ScriptContainer
