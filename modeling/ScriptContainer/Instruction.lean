import ScriptContainer.Opcode
import ScriptContainer.Operator
import ScriptContainer.Reference

/-!
# Instructions

One family of types describes code at every stage. Its parameter says what stands where a record
or an operator is referred to: a bound record in a script, a word in a container, a spelling in a
document. Jump targets are words counted from the start of the code region.
-/

namespace ScriptContainer

/-- What stands in the places of code that refer to records and operators. -/
structure Slots where
  symbol : Type
  var : Type
  table : Type
  label : Type
  callee : Type
  imported : Type
  function : Type
  operator : Type

namespace Slots

/-- Code whose references are bound to records. -/
@[reducible] def bound : Slots :=
  ⟨Symbol, VarRef, TableRef, LabelRef, Callee, RecordId, RecordId, Operator⟩

/-- Code whose references are words. -/
@[reducible] def numbered : Slots :=
  ⟨UInt32, UInt32, UInt32, UInt32, UInt32, UInt32, UInt32, UInt32⟩

/-- Code whose references are spelled out. -/
@[reducible] def spelled : Slots :=
  ⟨String, String, String, String, String, String, String, String⟩

end Slots

mutual

/-- One element of an expression. -/
inductive Token (S : Slots) where
  | symbol (ref : S.symbol)
  | operator (operator : S.operator)
  | call (call : Call S)

/-- A callee with its arguments. -/
structure Call (S : Slots) where
  callee : S.callee
  args : List (Argument S)

/-- One argument of a call. -/
inductive Argument (S : Slots) where
  | symbol (ref : S.symbol)
  | expr (tokens : List (Token S))

end

/-- The tokens of an expression in order. -/
abbrev Expression (S : Slots) := List (Token S)

/-- A value slot: one variable or an expression. -/
inductive Operand (S : Slots) where
  | var (ref : S.var)
  | expr (tokens : Expression S)

/-- The operands of a thread that is started. -/
structure Spawn (S : Slots) where
  callee : S.callee
  take : List UInt32
  give : List S.var

/-- One instruction. Fields named `unknown` are carried along without a known meaning. -/
inductive Instruction (S : Slots) where
  | nop
  | returnVal (value : Operand S)
  /-- Marks a place for a label of the function. -/
  | label
  | getArgs (function : S.function) (args : List S.var)
  | thread (spawn : Spawn S)
  | thread2 (spawn : Spawn S)
  | return
  | goto (label : S.label)
  | call (call : Call S)
  | callAsThread (call : Call S)
  | callAsChildThread (call : Call S)
  | deleteRuntime (value : Operand S)
  | wait (value : Operand S)
  | waitMs (value : Operand S)
  | if (condition : Expression S) (target unknown1 unknown2 : UInt32)
  | else (target : UInt32)
  | elseIf (skipTarget unknown1 : UInt32) (condition : Expression S)
      (target unknown3 unknown4 : UInt32)
  | endIf
  | switch (value : S.var) (entry exit : UInt32)
  | case (value : S.var) (target : UInt32)
  | case2 (value : S.var) (target : UInt32)
  | breakSwitch
  | endSwitch
  | doWhile (condition : Operand S) (target : UInt32)
  | break
  | endDoWhile
  | set (assignee : S.var) (value : Operand S)
  | readTableLength (table : S.table)
  | getIndex (table : S.table) (occurrence : S.var) (result : S.var)
  | waitCompleted (value : Operand S)
  | unsure1
  | unsure2 (expr : Expression S)
  | unsure3 (first : S.var) (imported : S.imported) (second : S.var)
  | unsure4 (var : S.var)
  | unsure7 (a b c d : S.var)
  | unsure8 (a b c : S.var)
  | unsure9 (expr : Expression S)
  | unsure11 (var : S.var) (table : S.table)

variable {S : Slots}

namespace Operand

/-- One variable, and likewise no tokens at all, take the constant shape. -/
def isConstant : Operand S → Bool
  | var _ => true
  | expr tokens => tokens.isEmpty

end Operand

namespace Argument

/-- The argument is a single symbol. -/
def isSymbol : Argument S → Bool
  | symbol _ => true
  | expr _ => false

end Argument

namespace Call

/-- A call takes the constant shape when all its arguments are single symbols. -/
def isConstant (call : Call S) : Bool := call.args.all Argument.isSymbol

end Call

namespace Instruction

def opcode : Instruction S → Opcode
  | nop => .nop
  | returnVal _ => .returnVal
  | label => .label
  | getArgs _ _ => .getArgs
  | thread _ => .thread
  | thread2 _ => .thread2
  | .return => .return
  | goto _ => .goto
  | call _ => .call
  | callAsThread _ => .callAsThread
  | callAsChildThread _ => .callAsChildThread
  | deleteRuntime _ => .deleteRuntime
  | wait _ => .wait
  | waitMs _ => .waitMs
  | .if .. => .if
  | .else _ => .else
  | elseIf .. => .elseIf
  | endIf => .endIf
  | switch .. => .switch
  | case .. => .case
  | case2 .. => .case2
  | breakSwitch => .breakSwitch
  | endSwitch => .endSwitch
  | doWhile .. => .doWhile
  | .break => .break
  | endDoWhile => .endDoWhile
  | set .. => .set
  | readTableLength _ => .readTableLength
  | getIndex .. => .getIndex
  | waitCompleted _ => .waitCompleted
  | unsure1 => .unsure1
  | unsure2 _ => .unsure2
  | unsure3 .. => .unsure3
  | unsure4 _ => .unsure4
  | unsure7 .. => .unsure7
  | unsure8 .. => .unsure8
  | unsure9 _ => .unsure9
  | unsure11 .. => .unsure11

/-- Whether the operands take the constant shape, which the opcode word announces. -/
def isConstant : Instruction S → Bool
  | returnVal value | deleteRuntime value | wait value | waitMs value | waitCompleted value =>
    value.isConstant
  | doWhile condition _ => condition.isConstant
  | set _ value => value.isConstant
  | call c | callAsThread c | callAsChildThread c => c.isConstant
  | unsure2 expr => expr.isEmpty
  | _ => false

/-- The callee of a started thread. -/
def threadCallee? : Instruction S → Option S.callee
  | thread spawn | thread2 spawn => some spawn.callee
  | _ => none

/-- The function that a thread starts, whose code follows the instruction where it is not
placed yet. -/
def spawned? (instruction : Instruction .bound) : Option RecordId :=
  match instruction.threadCallee? with
  | some (.function id) => some id
  | _ => none

end Instruction

end ScriptContainer
