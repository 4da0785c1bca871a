import ScriptContainer.Error
import ScriptContainer.Instruction.Change
import ScriptContainer.Script

/-!
# Contexts

A key is looked up in the functions that have been entered, the innermost first, and then in the
script. A function is searched for labels, then variables, then tables; the script for tables,
imports, functions and variables in this order. Lookups of one kind follow the same path and skip
the other kinds.
-/

namespace ScriptContainer

/-- A script with the functions that have been entered, the innermost first, and the state of the
instruction at hand. -/
structure Context where
  script : Script
  scopes : List Function
  opcode : Option Opcode
  /-- The operands of the instruction take the constant shape. -/
  constant : Bool
  /-- The offset at which the code region starts. -/
  codeBase : Nat

/-- The first function that yields a result. -/
def firstIn {α : Type} (scopes : List Function) (find : Function → Option α) : Option α :=
  scopes.findSome? find

namespace Function

/-- The label of the function that answers to a key. -/
def findLabel (f : Function) (key : Key) : Option LabelRef :=
  (f.labels.lookup key).map fun l => ⟨f.id, l.id⟩

/-- The variable of the function that answers to a key. -/
def findVariable (f : Function) (key : Key) : Option VarRef :=
  (f.vars.lookup key).map fun v => ⟨.function f.id, v.id⟩

/-- The table of the function that answers to a key. -/
def findTable (f : Function) (key : Key) : Option TableRef :=
  (f.tables.lookup key).map fun t => ⟨.function f.id, t.id⟩

/-- The label, or else the variable, or else the table that answers to a key. -/
def findSymbol (f : Function) (key : Key) : Option Symbol :=
  ((f.findLabel key).map .label).or
    (((f.findVariable key).map .variable).or ((f.findTable key).map .table))

end Function

namespace Script

/-- The variable of the script that answers to a key. -/
def findVariable (s : Script) (key : Key) : Option VarRef :=
  (s.vars.lookup key).map fun v => ⟨.script, v.id⟩

/-- The table of the script that answers to a key. -/
def findTable (s : Script) (key : Key) : Option TableRef :=
  (s.tables.lookup key).map fun t => ⟨.script, t.id⟩

/-- The import that answers to a key. -/
def findImport (s : Script) (key : Key) : Option RecordId := (s.imports.lookup key).map Import.id

/-- The function that answers to a key. -/
def findFunction (s : Script) (key : Key) : Option RecordId := (s.functions.lookup key).map Function.id

/-- The record of the script, outside its functions, that answers to a key. -/
def findSymbol (s : Script) (key : Key) : Option Symbol :=
  ((s.findTable key).map .table).or
    (((s.findImport key).map .imported).or
      (((s.findFunction key).map .function).or ((s.findVariable key).map .variable)))

/-- Whether the record that a symbol is bound to is in the script. -/
def has (s : Script) : Symbol → Bool
  | .label ref => (s.label? ref).isSome
  | .variable ref => (s.var? ref).isSome
  | .table ref => (s.table? ref).isSome
  | .imported id => s.imports.contains id
  | .function id => s.functions.contains id

/-- The number that stands for a symbol, whose record has to be in the script. -/
def check (s : Script) (symbol : Symbol) : Except Error RecordId :=
  if s.has symbol then .ok symbol.id else .error (.unknownSymbol symbol.kind (.id symbol.id))

/-- Bound references as the words of a container. -/
def numbering (s : Script) : Slots.Change .bound .numbered (Except Error) where
  symbol := s.check
  var ref := s.check (.variable ref)
  table ref := s.check (.table ref)
  label ref := s.check (.label ref)
  callee callee := s.check callee.toSymbol
  imported id := s.check (.imported id)
  function id := s.check (.function id)
  operator operator := .ok operator.code

end Script

namespace Context

/-- No function is entered and no instruction is at hand. -/
def new (script : Script) : Context := ⟨script, [], none, false, 0⟩

def push (ctx : Context) (f : Function) : Context := { ctx with scopes := f :: ctx.scopes }

def scope? (ctx : Context) : Option Function := ctx.scopes.head?

/-- Set the start of the code region. -/
def withCodeBase (ctx : Context) (codeBase : Nat) : Context := { ctx with codeBase }

/-- Take up an instruction. -/
def start (ctx : Context) (opcode : Opcode) (constant : Bool) : Context :=
  { ctx with opcode := some opcode, constant }

/-- The instruction does not take the constant shape after all. -/
def clearConstant (ctx : Context) : Context := { ctx with constant := false }

/-- A result, or the failure to find a key. -/
def orUnknown {α : Type} (found : Option α) (kind : Sought) (key : Key) : Except Error α :=
  match found with
  | some x => .ok x
  | none => .error (.unknownSymbol kind key)

/-- The record of any kind that a key means. -/
def resolve (ctx : Context) (key : Key) : Except Error Symbol :=
  orUnknown ((firstIn ctx.scopes (·.findSymbol key)).or (ctx.script.findSymbol key)) .symbol key

/-- The variable that a key means. -/
def findVariable (ctx : Context) (key : Key) : Except Error VarRef :=
  orUnknown ((firstIn ctx.scopes (·.findVariable key)).or (ctx.script.findVariable key))
    .variable key

/-- The label that a key means. -/
def findLabel (ctx : Context) (key : Key) : Except Error LabelRef :=
  orUnknown (firstIn ctx.scopes (·.findLabel key)) .label key

/-- The table that a key means. -/
def findTable (ctx : Context) (key : Key) : Except Error TableRef :=
  orUnknown ((firstIn ctx.scopes (·.findTable key)).or (ctx.script.findTable key)) .table key

/-- The callee that a key means: an import before a function. -/
def findCallee (ctx : Context) (key : Key) : Except Error Callee :=
  orUnknown (((ctx.script.findImport key).map .imported).or
    ((ctx.script.findFunction key).map .function)) .callee key

/-- The import that a key means. -/
def findImport (ctx : Context) (key : Key) : Except Error RecordId :=
  orUnknown (ctx.script.findImport key) .imported key

/-- The function that a key means. -/
def findFunction (ctx : Context) (key : Key) : Except Error RecordId :=
  orUnknown (ctx.script.findFunction key) .function key

end Context

/-- The parts of the code region that have been gone through. -/
structure Seen where
  parts : List Part
  deriving DecidableEq, Repr

namespace Seen

def nothing : Seen := ⟨[]⟩

/-- Whether a part has been gone through. -/
def contains (seen : Seen) (part : Part) : Bool := seen.parts.elem part

/-- Go through a part, which must not have been gone through before. -/
def visit (seen : Seen) (part : Part) : Except Error Seen :=
  if seen.contains part then .error (.doubleVisit part) else .ok ⟨part :: seen.parts⟩

end Seen

end ScriptContainer
