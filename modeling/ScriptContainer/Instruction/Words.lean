import ScriptContainer.Context

/-!
# Code as words

`words` writes code whose references are words, and `size` counts the bytes of code in any form
without writing it. The size depends on the shape of the code alone, so it is known before any
reference is looked up and does not change with the jump targets.

Bound code is encoded by numbering its references, each of which has to be bound to a record of the
script, and writing the words of the numbered code. The words do not depend on where they are
written.
-/

namespace ScriptContainer

open Marker

mutual

def Token.words : Token .numbered → List UInt32
  | .symbol word => [word]
  | .operator word => [word]
  | .call call => callStart :: Call.words false call

/-- The words of a call after its opening word. Single symbols are expressions of one token
unless the call is `constant`. -/
def Call.words (constant : Bool) : Call .numbered → List UInt32
  | ⟨callee, args⟩ => callee :: argumentWords constant args

def Argument.words (constant : Bool) : Argument .numbered → List UInt32
  | .symbol word => if constant then [word] else [word, exprEnd]
  | .expr tokens => expressionWords tokens

/-- The words of the arguments of a call and the word that closes them. -/
def argumentWords (constant : Bool) : List (Argument .numbered) → List UInt32
  | [] => [callEnd]
  | arg :: args => Argument.words constant arg ++ argumentWords constant args

/-- The words of an expression, the closing one included. -/
def expressionWords : List (Token .numbered) → List UInt32
  | [] => [exprEnd]
  | token :: tokens => Token.words token ++ expressionWords tokens

end

def Operand.words : Operand .numbered → List UInt32
  | var word => [word]
  | expr tokens => expressionWords tokens

/-- The words of a started thread. -/
def Spawn.words (spawn : Spawn .numbered) : List UInt32 :=
  spawn.callee :: (spawn.take ++ argsEnd :: (spawn.give ++ [callEnd]))

namespace Instruction

/-- The words of an instruction after the first one. -/
def operandWords : Instruction .numbered → List UInt32
  | returnVal value | deleteRuntime value | wait value | waitMs value | waitCompleted value =>
    value.words
  | getArgs function args => function :: (args ++ [argsEnd])
  | thread spawn | thread2 spawn => spawn.words
  | goto target => [target]
  | call c | callAsThread c | callAsChildThread c => c.words c.isConstant
  | .if condition target unknown1 unknown2 =>
    expressionWords condition ++ [target, unknown1, unknown2]
  | .else target => [target]
  | elseIf skipTarget unknown1 condition target unknown3 unknown4 =>
    [skipTarget, unknown1] ++ expressionWords condition ++ [target, unknown3, unknown4]
  | switch value entry exit => [value, entry, exit]
  | case value target | case2 value target => [value, target]
  | doWhile condition target => condition.words ++ [target]
  | set assignee value => assignee :: value.words
  | readTableLength table => [table]
  | getIndex table occurrence result => [table, occurrence, result]
  | unsure2 expr | unsure9 expr => expressionWords expr
  | unsure3 first imported second => [first, imported, second]
  | unsure4 var => [var]
  | unsure7 a b c d => [a, b, c, d]
  | unsure8 a b c => [a, b, c]
  | unsure11 var table => [var, table]
  | nop | label | .return | endIf | breakSwitch | endSwitch | .break | endDoWhile | unsure1 => []

/-- The first word of an instruction: its opcode and, for the constant shape, the flag. -/
def opcodeWord {S : Slots} (instruction : Instruction S) : UInt32 :=
  instruction.opcode.code ||| (if instruction.isConstant then constantFlag else 0)

def words (instruction : Instruction .numbered) : List UInt32 :=
  instruction.opcodeWord :: instruction.operandWords

end Instruction

variable {S : Slots}

mutual

def Token.size : Token S → Nat
  | .symbol _ => 4
  | .operator _ => 4
  | .call call => 4 + Call.size false call

/-- The bytes of a call after its opening word. -/
def Call.size (constant : Bool) : Call S → Nat
  | ⟨_, args⟩ => 4 + argumentsSize constant args + 4

def Argument.size (constant : Bool) : Argument S → Nat
  | .symbol _ => if constant then 4 else 8
  | .expr tokens => tokensSize tokens + 4

/-- The bytes of the arguments of a call. -/
def argumentsSize (constant : Bool) : List (Argument S) → Nat
  | [] => 0
  | arg :: args => Argument.size constant arg + argumentsSize constant args

def tokensSize : List (Token S) → Nat
  | [] => 0
  | token :: tokens => Token.size token + tokensSize tokens

end

/-- The bytes of an expression, the closing word included. -/
def expressionSize (tokens : Expression S) : Nat := tokensSize tokens + 4

def Operand.size : Operand S → Nat
  | var _ => 4
  | expr tokens => expressionSize tokens

/-- The bytes of a started thread. -/
def Spawn.size (spawn : Spawn S) : Nat := 12 + 4 * (spawn.take.length + spawn.give.length)

namespace Instruction

/-- The bytes of an instruction after its first word. -/
def operandSize : Instruction S → Nat
  | returnVal value | deleteRuntime value | wait value | waitMs value | waitCompleted value =>
    value.size
  | getArgs _ args => 4 + args.length * 4 + 4
  | thread spawn | thread2 spawn => spawn.size
  | goto _ | readTableLength _ | unsure4 _ | .else _ => 4
  | call c | callAsThread c | callAsChildThread c => c.size c.isConstant
  | .if condition _ _ _ => expressionSize condition + 12
  | elseIf _ _ condition _ _ _ => 8 + expressionSize condition + 12
  | case _ _ | case2 _ _ | unsure11 _ _ => 8
  | switch _ _ _ | getIndex _ _ _ | unsure3 _ _ _ | unsure8 _ _ _ => 12
  | doWhile condition _ => condition.size + 4
  | set _ value => 4 + value.size
  | unsure2 expr | unsure9 expr => expressionSize expr
  | unsure7 _ _ _ _ => 16
  | nop | label | .return | endIf | breakSwitch | endSwitch | .break | endDoWhile | unsure1 => 0

def size (instruction : Instruction S) : Nat := 4 + instruction.operandSize

/-- The words of an instruction whose references are all records of the script. -/
def encode (s : Script) (instruction : Instruction .bound) : Except Error (List UInt32) := do
  let numbered ← instruction.change s.numbering
  return numbered.words

end Instruction

/-- The words of an expression whose references are all records of the script. -/
def encodeExpression (s : Script) (tokens : Expression .bound) : Except Error (List UInt32) := do
  let numbered ← changeTokens s.numbering tokens
  return expressionWords numbered

/-- The words of a call whose references are all records of the script. -/
def encodeCall (s : Script) (call : Call .bound) (constant : Bool) :
    Except Error (List UInt32) := do
  let numbered ← call.change s.numbering
  return numbered.words constant

end ScriptContainer
