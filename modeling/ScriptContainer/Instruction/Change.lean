import ScriptContainer.Instruction

/-!
# Changing the form of references

A change says how each kind of reference in one form of code becomes a reference in another form.
Code is changed by going over its references in the order in which a container holds them, so the
first reference that cannot be changed decides the outcome.
-/

namespace ScriptContainer

/-- How the references of `S` become references of `T`, with effects in `m`. -/
structure Slots.Change (S T : Slots) (m : Type → Type) where
  symbol : S.symbol → m T.symbol
  var : S.var → m T.var
  table : S.table → m T.table
  label : S.label → m T.label
  callee : S.callee → m T.callee
  imported : S.imported → m T.imported
  function : S.function → m T.function
  operator : S.operator → m T.operator

variable {S T : Slots} {m : Type → Type} [Monad m]

mutual

/-- Change the references of a token. -/
def Token.change (f : S.Change T m) : Token S → m (Token T)
  | .symbol ref => .symbol <$> f.symbol ref
  | .operator operator => .operator <$> f.operator operator
  | .call call => .call <$> Call.change f call

/-- Change the references of a call, the callee first. -/
def Call.change (f : S.Change T m) : Call S → m (Call T)
  | ⟨callee, args⟩ => do
    let callee ← f.callee callee
    let args ← changeArguments f args
    return ⟨callee, args⟩

/-- Change the references of an argument. -/
def Argument.change (f : S.Change T m) : Argument S → m (Argument T)
  | .symbol ref => .symbol <$> f.symbol ref
  | .expr tokens => .expr <$> changeTokens f tokens

/-- Change the references of arguments in order. -/
def changeArguments (f : S.Change T m) : List (Argument S) → m (List (Argument T))
  | [] => pure []
  | arg :: args => do
    let arg ← Argument.change f arg
    let args ← changeArguments f args
    return arg :: args

/-- Change the references of tokens in order. -/
def changeTokens (f : S.Change T m) : List (Token S) → m (List (Token T))
  | [] => pure []
  | token :: tokens => do
    let token ← Token.change f token
    let tokens ← changeTokens f tokens
    return token :: tokens

end

/-- Change the references of an operand. -/
def Operand.change (f : S.Change T m) : Operand S → m (Operand T)
  | var ref => var <$> f.var ref
  | expr tokens => expr <$> changeTokens f tokens

/-- Change the references of a started thread, the callee first. -/
def Spawn.change (f : S.Change T m) (spawn : Spawn S) : m (Spawn T) := do
  let callee ← f.callee spawn.callee
  let give ← spawn.give.mapM f.var
  return ⟨callee, spawn.take, give⟩

/-- Change the references of an instruction. -/
def Instruction.change (f : S.Change T m) : Instruction S → m (Instruction T)
  | nop => pure nop
  | returnVal value => returnVal <$> value.change f
  | label => pure label
  | getArgs function args => do
    let function ← f.function function
    let args ← args.mapM f.var
    return getArgs function args
  | thread spawn => thread <$> spawn.change f
  | thread2 spawn => thread2 <$> spawn.change f
  | .return => pure .return
  | goto target => goto <$> f.label target
  | call c => call <$> c.change f
  | callAsThread c => callAsThread <$> c.change f
  | callAsChildThread c => callAsChildThread <$> c.change f
  | deleteRuntime value => deleteRuntime <$> value.change f
  | wait value => wait <$> value.change f
  | waitMs value => waitMs <$> value.change f
  | .if condition target unknown1 unknown2 => do
    let condition ← changeTokens f condition
    return .if condition target unknown1 unknown2
  | .else target => pure (.else target)
  | elseIf skipTarget unknown1 condition target unknown3 unknown4 => do
    let condition ← changeTokens f condition
    return elseIf skipTarget unknown1 condition target unknown3 unknown4
  | endIf => pure endIf
  | switch value entry exit => do
    let value ← f.var value
    return switch value entry exit
  | case value target => do
    let value ← f.var value
    return case value target
  | case2 value target => do
    let value ← f.var value
    return case2 value target
  | breakSwitch => pure breakSwitch
  | endSwitch => pure endSwitch
  | doWhile condition target => do
    let condition ← condition.change f
    return doWhile condition target
  | .break => pure .break
  | endDoWhile => pure endDoWhile
  | set assignee value => do
    let assignee ← f.var assignee
    let value ← value.change f
    return set assignee value
  | readTableLength table => readTableLength <$> f.table table
  | getIndex table occurrence result => do
    let table ← f.table table
    let occurrence ← f.var occurrence
    let result ← f.var result
    return getIndex table occurrence result
  | waitCompleted value => waitCompleted <$> value.change f
  | unsure1 => pure unsure1
  | unsure2 expr => unsure2 <$> changeTokens f expr
  | unsure3 first imported second => do
    let first ← f.var first
    let imported ← f.imported imported
    let second ← f.var second
    return unsure3 first imported second
  | unsure4 var => unsure4 <$> f.var var
  | unsure7 a b c d => do
    let a ← f.var a
    let b ← f.var b
    let c ← f.var c
    let d ← f.var d
    return unsure7 a b c d
  | unsure8 a b c => do
    let a ← f.var a
    let b ← f.var b
    let c ← f.var c
    return unsure8 a b c
  | unsure9 expr => unsure9 <$> changeTokens f expr
  | unsure11 var table => do
    let var ← f.var var
    let table ← f.table table
    return unsure11 var table

end ScriptContainer
