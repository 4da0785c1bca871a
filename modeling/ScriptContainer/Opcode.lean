import ScriptContainer.Text

/-!
# Opcodes and marker words

An instruction begins with a word that holds its opcode and, for some instructions, the
constant flag. The other words named here close or open lists inside the code region.
-/

namespace ScriptContainer

/-- The instructions known by number. -/
inductive Opcode where
  | nop | returnVal | label | getArgs | thread | thread2 | return | goto
  | call | callAsThread | callAsChildThread | deleteRuntime | unsure10 | wait | waitMs
  | if | else | elseIf | endIf | switch | case | case2 | breakSwitch | endSwitch
  | doWhile | break | endDoWhile | set | readTableLength | getIndex
  | unsure0 | unsure1 | unsure2 | unsure5 | unsure3 | unsure4 | waitCompleted
  | unsure9 | unsure11 | unsure8 | unsure7 | unsure6
  deriving DecidableEq, Repr

namespace Opcode

/-- The word that stands for the opcode, without the constant flag. -/
def code : Opcode → UInt32
  | nop => 0x02
  | returnVal => 0x03
  | label => 0x04
  | getArgs => 0x05
  | thread => 0x06
  | thread2 => 0x07
  | .return => 0x09
  | goto => 0x0a
  | call => 0x0c
  | callAsThread => 0x0d
  | callAsChildThread => 0x0e
  | deleteRuntime => 0x12
  | unsure10 => 0x15
  | wait => 0x16
  | waitMs => 0x17
  | .if => 0x18
  | .else => 0x26
  | elseIf => 0x27
  | endIf => 0x28
  | switch => 0x29
  | case => 0x2a
  | case2 => 0x2f
  | breakSwitch => 0x37
  | endSwitch => 0x38
  | doWhile => 0x39
  | .break => 0x3a
  | endDoWhile => 0x3c
  | set => 0x3d
  | readTableLength => 0x67
  | getIndex => 0x6d
  | unsure0 => 0x6e
  | unsure1 => 0x6f
  | unsure2 => 0x76
  | unsure5 => 0x77
  | unsure3 => 0x85
  | unsure4 => 0x86
  | waitCompleted => 0x89
  | unsure9 => 0x8a
  | unsure11 => 0x8e
  | unsure8 => 0x90
  | unsure7 => 0x91
  | unsure6 => 0x92

/-- The name under which messages show the opcode. -/
def name : Opcode → String
  | nop => "Nop"
  | returnVal => "ReturnVal"
  | label => "Label"
  | getArgs => "GetArgs"
  | thread => "Thread"
  | thread2 => "Thread2"
  | .return => "Return"
  | goto => "Goto"
  | call => "Call"
  | callAsThread => "CallAsThread"
  | callAsChildThread => "CallAsChildThread"
  | deleteRuntime => "DeleteRuntime"
  | unsure10 => "Unsure10"
  | wait => "Wait"
  | waitMs => "WaitMs"
  | .if => "If"
  | .else => "Else"
  | elseIf => "ElseIf"
  | endIf => "EndIf"
  | switch => "Switch"
  | case => "Case"
  | case2 => "Case2"
  | breakSwitch => "BreakSwitch"
  | endSwitch => "EndSwitch"
  | doWhile => "DoWhile"
  | .break => "Break"
  | endDoWhile => "EndDoWhile"
  | set => "Set"
  | readTableLength => "ReadTableLength"
  | getIndex => "GetIndex"
  | unsure0 => "Unsure0"
  | unsure1 => "Unsure1"
  | unsure2 => "Unsure2"
  | unsure5 => "Unsure5"
  | unsure3 => "Unsure3"
  | unsure4 => "Unsure4"
  | waitCompleted => "WaitCompleted"
  | unsure9 => "Unsure9"
  | unsure11 => "Unsure11"
  | unsure8 => "Unsure8"
  | unsure7 => "Unsure7"
  | unsure6 => "Unsure6"

def all : List Opcode :=
  [nop, returnVal, label, getArgs, thread, thread2, .return, goto, call, callAsThread,
    callAsChildThread, deleteRuntime, unsure10, wait, waitMs, .if, .else, elseIf, endIf, switch,
    case, case2, breakSwitch, endSwitch, doWhile, .break, endDoWhile, set, readTableLength,
    getIndex, unsure0, unsure1, unsure2, unsure5, unsure3, unsure4, waitCompleted, unsure9,
    unsure11, unsure8, unsure7, unsure6]

/-- The opcode of a word whose constant flag has been taken off. -/
def ofCode? (word : UInt32) : Option Opcode := all.find? fun opcode => opcode.code == word

theorem ofCode?_code (opcode : Opcode) : ofCode? opcode.code = some opcode := by
  cases opcode <;> rfl

theorem code_of_ofCode? {word : UInt32} {opcode : Opcode} (h : ofCode? word = some opcode) :
    opcode.code = word := by
  simpa using List.find?_some h

/-- Opcode and code together, such as `Set(0x3d)`. -/
def describe (opcode : Opcode) : String :=
  opcode.name ++ "(" ++ Text.hexByte opcode.code.toNat ++ ")"

/-- Opcodes whose operands have a constant shape beside the general one. -/
def acceptsConstant : Opcode → Bool
  | returnVal | deleteRuntime | wait | waitMs | waitCompleted | doWhile | set
  | call | callAsThread | callAsChildThread | unsure2 => true
  | _ => false

end Opcode

namespace Marker

/-- The bit of an opcode word that announces the constant shape. -/
def constantFlag : UInt32 := 0x100

/-- Closes an expression. -/
def exprEnd : UInt32 := 0x40

/-- Closes the arguments of a call and the variables that a thread is given. -/
def callEnd : UInt32 := 0x11

/-- Closes bound arguments and the slots that a thread takes. -/
def argsEnd : UInt32 := 0x08

/-- Opens a call inside an expression. -/
def callStart : UInt32 := 0x0c

/-- Opens the payload of a table of variables. -/
def tableOpenVariable : UInt32 := 0x63

/-- Opens the payload of a table of floats. -/
def tableOpenFloat : UInt32 := 0x64

/-- Opens the payload of a table of integers or bytes. -/
def tableOpenInt : UInt32 := 0x65

/-- Closes every table payload. -/
def tableClose : UInt32 := 0x66

end Marker

end ScriptContainer
