import ScriptContainer.Instruction.Words
import ScriptContainer.Proofs.EncodedSize

/-!
# Clear code

The words of code stand one after the other without a count, so a reference whose number is also
that of a marker or an operator may be taken for it. Code is clear if no word of it can be taken for
another one. Single symbols among the arguments of a nested call, or beside expressions, are
written as expressions and are not clear either.
-/

namespace ScriptContainer

open Marker

mutual

/-- A symbol is none of the words that may stand in its place. -/
def Token.isClear : Token .numbered → Bool
  | .symbol word => word != exprEnd && word != callStart && (Operator.ofCode? word).isNone
  | .operator word => (Operator.ofCode? word).isSome
  | .call call => Call.isClear call

/-- The arguments of a nested call are expressions. -/
def Call.isClear : Call .numbered → Bool
  | ⟨_, args⟩ => clearArguments args

/-- An argument does not begin with the word that closes arguments. -/
def Argument.isClear : Argument .numbered → Bool
  | .symbol _ => false
  | .expr tokens => (expressionWords tokens).head? != some callEnd && clearTokens tokens

def clearArguments : List (Argument .numbered) → Bool
  | [] => true
  | arg :: args => Argument.isClear arg && clearArguments args

def clearTokens : List (Token .numbered) → Bool
  | [] => true
  | token :: tokens => Token.isClear token && clearTokens tokens

end

/-- The argument is a single symbol that does not close arguments. -/
def Argument.isClearSymbol : Argument .numbered → Bool
  | .symbol word => word != callEnd
  | .expr _ => false

/-- A clear argument of a call whose arguments are all of one kind. -/
def Argument.isClearAs (constant : Bool) (arg : Argument .numbered) : Bool :=
  if constant then arg.isClearSymbol else arg.isClear

lemma clearArguments_eq (args : List (Argument .numbered)) :
    clearArguments args = args.all (Argument.isClearAs false) := by
  induction args with
  | nil => rfl
  | cons arg args ih => rw [clearArguments, ih, List.all_cons]; rfl

/-- The arguments of a call that is an instruction are all single symbols or all expressions. -/
def Call.isClearOperand (call : Call .numbered) : Bool :=
  call.args.all Argument.isClearSymbol || call.isClear

lemma Call.isClear_eq (call : Call .numbered) :
    call.isClear = call.args.all (Argument.isClearAs false) := by
  obtain ⟨callee, args⟩ := call
  exact clearArguments_eq args

lemma Call.isClearOperand_of_all {call : Call .numbered} {constant : Bool}
    (h : call.args.all (Argument.isClearAs constant)) : call.isClearOperand := by
  rw [isClearOperand, Bool.or_eq_true]
  cases constant with
  | true => exact .inl h
  | false => exact .inr (call.isClear_eq.trans h)

/-- A variable in the place of an expression does not close the expression. -/
def Operand.isClear : Operand .numbered → Bool
  | var word => word != exprEnd
  | expr tokens => clearTokens tokens

/-- The words that a thread takes and gives do not close them. -/
def Spawn.isClear (spawn : Spawn .numbered) : Bool :=
  spawn.take.all (· != argsEnd) && spawn.give.all (· != callEnd)

/-- No word of the instruction can be taken for another one. -/
def Instruction.isClear : Instruction .numbered → Bool
  | returnVal value | deleteRuntime value | wait value | waitMs value | waitCompleted value
  | doWhile value _ | set _ value => value.isClear
  | getArgs _ args => args.all (· != argsEnd)
  | thread spawn | thread2 spawn => spawn.isClear
  | call c | callAsThread c | callAsChildThread c => c.isClearOperand
  | .if condition _ _ _ | elseIf _ _ condition _ _ _ => clearTokens condition
  | unsure2 expr | unsure9 expr => clearTokens expr
  | _ => true

end ScriptContainer
