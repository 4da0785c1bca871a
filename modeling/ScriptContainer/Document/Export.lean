import ScriptContainer.Document.ScopeChain
import ScriptContainer.Document.Writing

/-!
# From scripts to documents

A reference is spelled by the name of its record where looking up that name, in the same context
and in the same way as when the document is read, finds the record again. Otherwise it is spelled
by number.
-/

namespace ScriptContainer

open Number

/-- The name of the record that a symbol is bound to. -/
def Script.nameOf (s : Script) : Symbol → Option String
  | .variable ref => (s.var? ref).bind Variable.name
  | .table ref => (s.table? ref).bind Table.name
  | .label ref => (s.label? ref).bind Label.name
  | .imported id => (s.imports.get? id).bind Import.name
  | .function id => (s.functions.get? id).bind Function.name

namespace Context

/-- The spelling of a symbol for a reader who looks it up by `find`. -/
def spell (ctx : Context) (symbol : Symbol) (find : Key → Except Error Symbol) : String :=
  match ctx.script.nameOf symbol with
  | some name =>
    match find (Key.parse name) with
    | .ok found => if found = symbol then name else Key.spellId symbol.id
    | .error _ => Key.spellId symbol.id
  | none => Key.spellId symbol.id

/-- Bound references as they are spelled in a context. -/
def spelling (ctx : Context) : Slots.Change .bound .spelled Id where
  symbol symbol := ctx.spell symbol ctx.resolve
  var ref := ctx.spell (.variable ref) fun key => (ctx.findVariable key).map .variable
  table ref := ctx.spell (.table ref) fun key => (ctx.findTable key).map .table
  label ref := ctx.spell (.label ref) fun key => (ctx.findLabel key).map .label
  callee callee := ctx.spell callee.toSymbol fun key => (ctx.findCallee key).map Callee.toSymbol
  imported id := ctx.spell (.imported id) fun key => (ctx.findImport key).map .imported
  function id := ctx.spell (.function id) fun key => (ctx.findFunction key).map .function
  operator operator := operator.symbol

end Context

namespace Document

/-- The value of a variable of the given type. -/
def Value.ofValue (type : ValueType) : ScriptContainer.Value → Value
  | .int value => .int value
  | .float value => if value.isFinite then .float value else .floatBits value.bits
  | .string text => .string text
  | .raw word => .raw type.code word

def Variable.ofRecord (v : ScriptContainer.Variable) : Variable :=
  ⟨v.id, v.name, v.scope, v.flags, .ofValue v.type v.value⟩

/-- The elements of a table, variables spelled in a context. -/
def spellValues (ctx : Context) : TableValues VarRef → TableValues String
  | .vars refs => .vars (refs.map ctx.spelling.var)
  | .ints values => .ints values
  | .floats values => .floats values
  | .bytes values => .bytes values

/-- A table in a document; the context is the scope of its owner. -/
def Table.ofRecord (ctx : Context) (t : ScriptContainer.Table) : Table :=
  ⟨t.id, t.name, t.start, spellValues ctx t.values⟩

/-- A function in a document: its tables are spelled in its own scope, its code in the context
`code`. -/
def Function.ofRecord (own code : Context) (f : ScriptContainer.Function) : Function :=
  { id := f.id
    name := f.name
    isPublic := f.isPublic
    isInline := f.isInline
    isDeclared := f.isDeclared
    unknown := f.unknown
    codeStart := f.codeStart
    codeEnd := f.codeEnd
    vars := f.vars.records.map Variable.ofRecord
    tables := f.tables.records.map (Table.ofRecord own)
    labels := f.labels.records
    code := f.code.map fun instruction => instruction.change code.spelling }

def ofScript (s : Script) : Document :=
  let root := Context.new s
  let chains := s.scopeChains ScriptContainer.Function.spawns
  { imports := s.imports.records
    vars := (s.vars.records.filter fun v => v.scope != .temporary).map Variable.ofRecord
    tables := s.tables.records.map (Table.ofRecord root)
    functions := s.functions.records.map fun f =>
      .ofRecord (root.push f) (.ofCode s chains f) f
    padding := s.padding }

end Document

/-- The text of the document of a script. -/
def Script.exportText (indented : Bool) (s : Script) : String :=
  (Document.ofScript s).text indented

end ScriptContainer
