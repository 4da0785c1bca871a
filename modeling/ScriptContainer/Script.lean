import ScriptContainer.Instruction
import ScriptContainer.Record.Basic

/-!
# Scripts

A script holds its records in the order of their declaration. Functions own variables, tables and
labels. A function whose code stands inside the code of another one is a record of the script like
any other.
-/

namespace ScriptContainer

/-- Code in order. -/
abbrev Body (S : Slots) := List (Instruction S)

/-- A function: its declaration, what it owns, and its code. -/
structure Function where
  id : RecordId
  name : Option String
  isPublic : Bool
  /-- The code stands inside the code of the function that starts this one. -/
  isInline : Bool
  /-- The function has a declaration; code found between declared functions has none. -/
  isDeclared : Bool
  /-- Words of the declaration without a known meaning. -/
  unknown : Words3
  /-- The first byte of the code, counted from the start of the code region. -/
  codeStart : UInt32
  /-- The byte after the code, counted from the start of the code region. -/
  codeEnd : UInt32
  vars : Registry Variable
  tables : Registry Table
  labels : Registry Label
  code : Body .bound

instance : Named Function where
  id := Function.id
  name := Function.name

namespace Function

/-- A declared function without name, records or code. -/
def new (id : RecordId) : Function :=
  ⟨id, none, false, false, true, .zero, 0, 0, .empty, .empty, .empty, []⟩

/-- Add a variable, which becomes one that the function owns. -/
def addVariable (f : Function) (v : Variable) : Function :=
  { f with vars := f.vars.insert { v with scope := .owned } }

def addTable (f : Function) (t : Table) : Function := { f with tables := f.tables.insert t }

def addLabel (f : Function) (l : Label) : Function := { f with labels := f.labels.insert l }

/-- Add an instruction at the end of the code. -/
def push (f : Function) (instruction : Instruction .bound) : Function :=
  { f with code := f.code ++ [instruction] }

/-- The name of the function, or its number. -/
def describe (f : Function) : String := displayName f.id f.name

/-- The functions that the code starts as threads, in order. -/
def spawns (f : Function) : List RecordId := f.code.filterMap Instruction.spawned?

end Function

/-- Filler words that a container holds in three places. -/
structure Padding where
  /-- Before the declarations. -/
  front : List UInt32
  /-- After the tables. -/
  tables : List UInt32
  /-- After the code. -/
  code : List UInt32
  deriving DecidableEq, Repr

namespace Padding

def none : Padding := ⟨[], [], []⟩

/-- Whether there are no filler words. -/
def isNone (p : Padding) : Bool := p.front.isEmpty && p.tables.isEmpty && p.code.isEmpty

end Padding

/-- All records of a script. -/
structure Script where
  imports : Registry Import
  functions : Registry Function
  /-- The variables that no function owns, temporaries included. -/
  vars : Registry Variable
  tables : Registry Table
  padding : Padding

namespace Script

/-- The script that holds nothing but the temporaries. -/
def new : Script :=
  ⟨.empty, .empty, .ofList ((List.range Variable.temporaryCount).map Variable.temporary), .empty,
    .none⟩

def addImport (s : Script) (i : Import) : Script := { s with imports := s.imports.insert i }

def addFunction (s : Script) (f : Function) : Script := { s with functions := s.functions.insert f }

def addVariable (s : Script) (v : Variable) : Script := { s with vars := s.vars.insert v }

def addTable (s : Script) (t : Table) : Script := { s with tables := s.tables.insert t }

/-- The variables of one storage class, in order. -/
def variablesIn (s : Script) (scope : Scope) : List Variable :=
  s.vars.records.filter fun v => v.scope == scope

/-- The id after the greatest one of a function. -/
def nextFunctionId (s : Script) : RecordId :=
  match (s.functions.ids.map UInt32.toNat).max? with
  | some greatest => UInt32.ofNat (greatest + 1)
  | none => 0

/-- The variable that a reference is bound to. -/
def var? (s : Script) (ref : VarRef) : Option Variable :=
  match ref.owner with
  | .script => s.vars.get? ref.id
  | .function id => (s.functions.get? id).bind fun f => f.vars.get? ref.id

/-- The table that a reference is bound to. -/
def table? (s : Script) (ref : TableRef) : Option Table :=
  match ref.owner with
  | .script => s.tables.get? ref.id
  | .function id => (s.functions.get? id).bind fun f => f.tables.get? ref.id

/-- The label that a reference is bound to. -/
def label? (s : Script) (ref : LabelRef) : Option Label :=
  (s.functions.get? ref.function).bind fun f => f.labels.get? ref.id

/-- Every table with its reference: those of the script first, then those of each function. -/
def allTables (s : Script) : List (TableRef × Table) :=
  (s.tables.records.map fun t => (⟨.script, t.id⟩, t)) ++
    s.functions.records.flatMap fun f => f.tables.records.map fun t => (⟨.function f.id, t.id⟩, t)

/-- Change the function with this id, if there is one. -/
def modifyFunction (s : Script) (id : RecordId) (change : Function → Function) : Script :=
  { s with functions := s.functions.modify id change }

/-- Put a table in the place of the one with the same owner and id, if there is one. -/
def replaceTable (s : Script) (owner : Owner) (t : Table) : Script :=
  match owner with
  | .script => { s with tables := s.tables.replace t }
  | .function id => s.modifyFunction id fun f => { f with tables := f.tables.replace t }

end Script

end ScriptContainer
