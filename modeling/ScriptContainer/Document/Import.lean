import ScriptContainer.Document.Reading
import ScriptContainer.Document.ScopeChain

/-!
# From documents to scripts

Records come first. References are looked up afterwards, in a context over all records, so they may
stand before what they refer to.
-/

namespace ScriptContainer

/-- The lists of a document in which ids may not be repeated. -/
inductive RecordKind where
  | imported | variable | table | function | ownedVariable | ownedTable | label
  deriving DecidableEq, Repr

namespace RecordKind

/-- The words by which messages name the kind. -/
def name : RecordKind → String
  | imported => "import"
  | .variable => "variable"
  | table => "table"
  | function => "function"
  | ownedVariable => "local variable"
  | ownedTable => "local table"
  | label => "label"

end RecordKind

/-- What a document may say and a script cannot hold. -/
inductive Invalid where
  | duplicate (kind : RecordKind) (id : RecordId)
  | unknownOperator (text : String)
  | knownTypeCode (id : RecordId) (code : UInt32) (type : ValueType)
  deriving DecidableEq, Repr

/-- The wording of an invalid document. -/
def Invalid.message : Invalid → String
  | duplicate kind id => "duplicate " ++ kind.name ++ " id " ++ toString id.toNat
  | unknownOperator text => "unknown operator " ++ Text.quote text
  | knownTypeCode id code type =>
    "variable " ++ toString id.toNat ++ ": raw type code " ++ Text.hex code.toNat ++ " is " ++
      type.describe

/-- Why a document does not become a script. -/
inductive DocumentError where
  | notADocument
  | invalid (cause : Invalid)
  | unbound (cause : Error)
  deriving DecidableEq, Repr

/-- The wording of a failure to become a script. -/
def DocumentError.message : DocumentError → String
  | notADocument => "invalid JSON"
  | invalid cause => "invalid value: " ++ cause.message
  | unbound cause => cause.message

namespace Document

/-- Fail at the first id that stands a second time. -/
def requireDistinct (kind : RecordKind) : List RecordId → List RecordId → Except DocumentError Unit
  | _, [] => .ok ()
  | seen, id :: ids =>
    if seen.elem id then .error (.invalid (.duplicate kind id))
    else requireDistinct kind (id :: seen) ids

def Variable.toRecord (v : Variable) : Except DocumentError ScriptContainer.Variable :=
  match v.value with
  | .int value => .ok ⟨v.id, v.name, v.scope, .int, v.flags, .int value⟩
  | .float value => .ok ⟨v.id, v.name, v.scope, .float, v.flags, .float value⟩
  | .floatBits bits => .ok ⟨v.id, v.name, v.scope, .float, v.flags, .float ⟨bits⟩⟩
  | .string text => .ok ⟨v.id, v.name, v.scope, .string, v.flags, .string text⟩
  | .raw code word =>
    match ValueType.ofCode code with
    | .raw code => .ok ⟨v.id, v.name, v.scope, .raw code, v.flags, .raw word⟩
    | type => .error (.invalid (.knownTypeCode v.id code type))

/-- The elements of a table that need no lookup. -/
def plainValues : TableValues String → TableValues VarRef
  | .vars _ => .vars []
  | .ints values => .ints values
  | .floats values => .floats values
  | .bytes values => .bytes values

/-- The record of a table; variables among its elements are not looked up yet. -/
def Table.toRecord (t : Table) : ScriptContainer.Table :=
  let values := plainValues t.values
  ⟨t.id, t.name, values.type, UInt32.ofNat values.size, t.start, values⟩

/-- The record of a function without its code. -/
def Function.toRecord (f : Function) : Except DocumentError ScriptContainer.Function := do
  requireDistinct .ownedVariable [] (f.vars.map Variable.id)
  requireDistinct .ownedTable [] (f.tables.map Table.id)
  requireDistinct .label [] (f.labels.map Label.id)
  let vars ← f.vars.mapM Variable.toRecord
  let empty := { ScriptContainer.Function.new f.id with
    name := f.name
    isPublic := f.isPublic
    isInline := f.isInline
    isDeclared := f.isDeclared
    unknown := f.unknown
    codeStart := f.codeStart
    codeEnd := f.codeEnd }
  let withVars := vars.foldl ScriptContainer.Function.addVariable empty
  let withTables := (f.tables.map Table.toRecord).foldl ScriptContainer.Function.addTable withVars
  return f.labels.foldl ScriptContainer.Function.addLabel withTables

/-- The script of all records, without code and without variables in tables. -/
def records (d : Document) : Except DocumentError Script := do
  requireDistinct .imported [] (d.imports.map Import.id)
  requireDistinct .variable [] (d.vars.map Variable.id)
  requireDistinct .table [] (d.tables.map Table.id)
  requireDistinct .function [] (d.functions.map Function.id)
  let s := d.imports.foldl Script.addImport Script.new
  let vars ← d.vars.mapM Variable.toRecord
  let s := vars.foldl Script.addVariable s
  let s := (d.tables.map Table.toRecord).foldl Script.addTable s
  let functions ← d.functions.mapM Function.toRecord
  let s := functions.foldl Script.addFunction s
  return { s with padding := d.padding }

end Document

/-- The callee that the instruction starts as a thread, as it is spelled. -/
def Instruction.spelledCallee? (instruction : Instruction .spelled) : Option String :=
  instruction.threadCallee?

namespace Context

/-- A lookup by the spelling of a reference. -/
def bySpelling {α : Type} (find : Key → Except Error α) (text : String) : Except DocumentError α :=
  (find (Key.parse text)).mapError .unbound

/-- Spelled references as they are bound in a context. -/
def binding (ctx : Context) : Slots.Change .spelled .bound (Except DocumentError) where
  symbol := bySpelling ctx.resolve
  var := bySpelling ctx.findVariable
  table := bySpelling ctx.findTable
  label := bySpelling ctx.findLabel
  callee := bySpelling ctx.findCallee
  imported := bySpelling ctx.findImport
  function := bySpelling ctx.findFunction
  operator text :=
    match Operator.ofSymbol? text with
    | some operator => .ok operator
    | none => .error (.invalid (.unknownOperator text))

end Context

namespace Document

/-- The functions that a function of the document starts, by the records of the script. -/
def spawns (d : Document) (s : Script) (f : ScriptContainer.Function) : List RecordId :=
  match d.functions.find? fun found => found.id == f.id with
  | none => []
  | some found => (found.code.filterMap Instruction.spelledCallee?).filterMap fun text =>
    match (Context.new s).findCallee (Key.parse text) with
    | .ok (.function id) => some id
    | _ => none

/-- The script with the variables of a table looked up in the scope of its owner. -/
def bindTable (ctx : Context) (owner : Owner) (s : Script) (t : Table) :
    Except DocumentError Script :=
  match t.values with
  | .vars texts => do
    let refs ← texts.mapM ctx.binding.var
    match s.table? ⟨owner, t.id⟩ with
    | some found =>
      let bound := { found with length := UInt32.ofNat refs.length, values := .vars refs }
      return s.replaceTable owner bound
    | none => return s
  | _ => .ok s

/-- The script with the references of a function looked up among the records. -/
def bindFunction (records : Script) (chains : Registry Chain) (s : Script) (f : Function) :
    Except DocumentError Script :=
  match records.functions.get? f.id with
  | none => .ok s
  | some record => do
    let own := (Context.new records).push record
    let s ← f.tables.foldlM (bindTable own (.function f.id)) s
    let code ← f.code.mapM fun instruction =>
      instruction.change (Context.ofCode records chains record).binding
    return s.modifyFunction f.id fun found => { found with code }

def toScript (d : Document) : Except DocumentError Script := do
  let records ← d.records
  let chains := records.scopeChains (d.spawns records)
  let s ← d.tables.foldlM (bindTable (.new records) .script) records
  d.functions.foldlM (bindFunction records chains) s

end Document

/-- The script of the document of a text. -/
def Script.importText (text : String) : Except DocumentError Script :=
  match Document.ofText? text with
  | none => .error .notADocument
  | some d => d.toScript

end ScriptContainer
