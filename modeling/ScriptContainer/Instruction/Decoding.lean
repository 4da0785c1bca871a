import ScriptContainer.Bytes.Reader
import ScriptContainer.Context

/-!
# Decoding instructions

Words are taken from a reader and bound to records as they come. A call inside an expression
takes the constant shape away from the instruction that holds the expression. Recursion is bounded
by a number of steps. Between two words at most four steps are taken, and a word has four bytes, so
more steps than there are bytes are never used up. Running out of steps counts as running out of
data.
-/

namespace ScriptContainer

open Marker

/-- A reader with the shape of the instruction at hand. -/
structure Cursor where
  reader : Reader
  constant : Bool

/-- Decoding moves a cursor, also where it fails. -/
abbrev Decode := EStateM Error Cursor

namespace Decode

variable {α : Type}

/-- Read without regard to the shape. -/
def ofRead (read : Read α) : Decode α := fun c =>
  match read c.reader with
  | .ok x reader => .ok x { c with reader }
  | .error e reader => .error e { c with reader }

/-- A result that does not move the cursor. -/
def ofExcept : Except Error α → Decode α
  | .ok x => pure x
  | .error e => throw e

def word : Decode UInt32 := ofRead Read.word

/-- The next word, looked up. -/
def slot (find : Key → Except Error α) : Decode α := do
  let w ← word
  ofExcept (find (.id w))

/-- Take the constant shape, or not. -/
def setConstant (constant : Bool) : Decode Unit := modify fun c => { c with constant }

/-- Whether the instruction at hand takes the constant shape. -/
def isConstant : Decode Bool := do return (← get).constant

/-- There is nothing left to decode. -/
def endOfData : Decode α := fun c => .error (.malformed c.reader.offset .endOfData) c

/-- More steps than there are bytes left. -/
def enoughSteps : Decode Nat := do return (← get).reader.remaining + 1

/-- Looked-up words up to a closing word. -/
def slotsUntil (stop : UInt32) (find : UInt32 → Except Error α) : Nat → Decode (List α)
  | 0 => endOfData
  | steps + 1 => do
    let w ← word
    if w = stop then return []
    else
      let x ← ofExcept (find w)
      let xs ← slotsUntil stop find steps
      return x :: xs

mutual

/-- The tokens of an expression whose first word has been read. -/
def tokensFrom (ctx : Context) : Nat → UInt32 → Decode (List (Token .bound))
  | 0, _ => endOfData
  | steps + 1, first => do
    if first = exprEnd then return []
    else
      let token ← token ctx steps first
      let next ← word
      let tokens ← tokensFrom ctx steps next
      return token :: tokens

/-- The token that begins with a word which has been read. -/
def token (ctx : Context) : Nat → UInt32 → Decode (Token .bound)
  | 0, _ => endOfData
  | steps + 1, first => do
    if first = callStart then
      setConstant false
      let call ← callFrom ctx steps false
      return .call call
    else match Operator.ofCode? first with
      | some operator => return .operator operator
      | none =>
        let symbol ← ofExcept (ctx.resolve (.id first))
        return .symbol symbol

/-- A call after its opening word; the arguments are single symbols where it is `constant`. -/
def callFrom (ctx : Context) : Nat → Bool → Decode (Call .bound)
  | 0, _ => endOfData
  | steps + 1, constant => do
    let callee ← slot ctx.findCallee
    let args ← argumentsFrom ctx steps constant
    return ⟨callee, args⟩

/-- The arguments of a call up to the word that closes them. -/
def argumentsFrom (ctx : Context) : Nat → Bool → Decode (List (Argument .bound))
  | 0, _ => endOfData
  | steps + 1, constant => do
    let first ← word
    if first = callEnd then return []
    else
      let arg ← argument ctx steps constant first
      let args ← argumentsFrom ctx steps constant
      return arg :: args

/-- The argument that begins with a word which has been read. -/
def argument (ctx : Context) : Nat → Bool → UInt32 → Decode (Argument .bound)
  | 0, _, _ => endOfData
  | steps + 1, constant, first => do
    if constant then
      let symbol ← ofExcept (ctx.resolve (.id first))
      return .symbol symbol
    else
      let tokens ← tokensFrom ctx steps first
      return .expr tokens

end

def expression (ctx : Context) : Decode (Expression .bound) := do
  let steps ← enoughSteps
  let first ← word
  tokensFrom ctx steps first

def call (ctx : Context) (constant : Bool) : Decode (Call .bound) := do
  let steps ← enoughSteps
  callFrom ctx steps constant

/-- An operand: in the constant shape one word, which is a variable or closes an empty
expression, and otherwise an expression. -/
def operand (ctx : Context) : Decode (Operand .bound) := do
  if ← isConstant then
    let w ← word
    if w = exprEnd then return .expr []
    else
      let ref ← ofExcept (ctx.findVariable (.id w))
      return .var ref
  else
    let tokens ← expression ctx
    return .expr tokens

def var (ctx : Context) : Decode VarRef := slot ctx.findVariable

/-- The operands of a started thread. -/
def spawn (ctx : Context) : Decode (Spawn .bound) := do
  let callee ← slot ctx.findCallee
  let steps ← enoughSteps
  let take ← slotsUntil argsEnd (fun w => .ok w) steps
  let give ← slotsUntil callEnd (fun w => ctx.findVariable (.id w)) steps
  return ⟨callee, take, give⟩

/-- A call whose shape is that of the instruction at hand. -/
def callOperand (ctx : Context) : Decode (Call .bound) := do
  let constant ← isConstant
  call ctx constant

/-- The operands after an opcode word, which is given with its offset. -/
def operands (ctx : Context) (first : UInt32) (offset : Nat) :
    Opcode → Decode (Instruction .bound)
  | .nop => return .nop
  | .returnVal => .returnVal <$> operand ctx
  | .label => return .label
  | .getArgs => do
    let function ← slot ctx.findFunction
    let steps ← enoughSteps
    let args ← slotsUntil argsEnd (fun w => ctx.findVariable (.id w)) steps
    return .getArgs function args
  | .thread => .thread <$> spawn ctx
  | .thread2 => .thread2 <$> spawn ctx
  | .return => return .return
  | .goto => .goto <$> slot ctx.findLabel
  | .call => .call <$> callOperand ctx
  | .callAsThread => .callAsThread <$> callOperand ctx
  | .callAsChildThread => .callAsChildThread <$> callOperand ctx
  | .deleteRuntime => .deleteRuntime <$> operand ctx
  | .wait => .wait <$> operand ctx
  | .waitMs => .waitMs <$> operand ctx
  | .if => do
    let condition ← expression ctx
    let target ← word
    let unknown1 ← word
    let unknown2 ← word
    return .if condition target unknown1 unknown2
  | .else => .else <$> word
  | .elseIf => do
    let skipTarget ← word
    let unknown1 ← word
    let condition ← expression ctx
    let target ← word
    let unknown3 ← word
    let unknown4 ← word
    return .elseIf skipTarget unknown1 condition target unknown3 unknown4
  | .endIf => return .endIf
  | .switch => do
    let value ← var ctx
    let entry ← word
    let exit ← word
    return .switch value entry exit
  | .case => do
    let value ← var ctx
    let target ← word
    return .case value target
  | .case2 => do
    let value ← var ctx
    let target ← word
    return .case2 value target
  | .breakSwitch => return .breakSwitch
  | .endSwitch => return .endSwitch
  | .doWhile => do
    let condition ← operand ctx
    let target ← word
    return .doWhile condition target
  | .break => return .break
  | .endDoWhile => return .endDoWhile
  | .set => do
    let assignee ← var ctx
    let value ← operand ctx
    return .set assignee value
  | .readTableLength => .readTableLength <$> slot ctx.findTable
  | .getIndex => do
    let table ← slot ctx.findTable
    let occurrence ← var ctx
    let result ← var ctx
    return .getIndex table occurrence result
  | .waitCompleted => .waitCompleted <$> operand ctx
  | .unsure1 => return .unsure1
  | .unsure2 => .unsure2 <$> expression ctx
  | .unsure3 => do
    let first ← var ctx
    let imported ← slot ctx.findImport
    let second ← var ctx
    return .unsure3 first imported second
  | .unsure4 => .unsure4 <$> var ctx
  | .unsure7 => do
    let a ← var ctx
    let b ← var ctx
    let c ← var ctx
    let d ← var ctx
    return .unsure7 a b c d
  | .unsure8 => do
    let a ← var ctx
    let b ← var ctx
    let c ← var ctx
    return .unsure8 a b c
  | .unsure9 => .unsure9 <$> expression ctx
  | .unsure11 => do
    let var ← var ctx
    let table ← slot ctx.findTable
    return .unsure11 var table
  | .unsure0 | .unsure5 | .unsure6 | .unsure10 => throw (.unknownOpcode first offset)

/-- An instruction. Only opcodes that have a constant shape may carry the flag for it. -/
def instruction (ctx : Context) : Decode (Instruction .bound) := do
  let offset ← ofRead Read.offset
  let first ← word
  let constant := first &&& constantFlag != 0
  match Opcode.ofCode? (first &&& ~~~constantFlag) with
  | none => throw (.unknownOpcode first offset)
  | some opcode =>
    if constant && !opcode.acceptsConstant then
      throw (.malformed offset (.constantFlag opcode))
    else
      setConstant constant
      operands ctx first offset opcode

end Decode

namespace Read

def instruction (ctx : Context) : Read (Instruction .bound) := fun r =>
  match Decode.instruction ctx ⟨r, false⟩ with
  | .ok x c => .ok x c.reader
  | .error e c => .error e c.reader

end Read

end ScriptContainer
