import ScriptContainer.Bytes.Reader
import ScriptContainer.Script

/-!
# Reading records

Every record begins with a word that says whether it has a name. The name follows the fixed part
of the record.
-/

namespace ScriptContainer

namespace Read

/-- The word before a record with a name. -/
def namedFlag : UInt32 := 0xffffffff

/-- Whether the record that begins here has a name. -/
def nameFlag : Read Bool := do
  let here ← offset
  let flag ← word
  if flag = namedFlag then return true
  else if flag = 0 then return false
  else malformed here (.nameFlag flag)

/-- The name of a record that has one. -/
def name (named : Bool) : Read (Option String) := do
  if named then
    let name ← text
    return some name
  else return none

/-- An offset given in words; it may not lie past the end of the buffer. -/
def wordOffset : Read UInt32 := do
  let here ← offset
  let count ← word
  if count.toNat * 4 < UInt32.size ∧ count.toNat * 4 ≤ (← length) then
    return UInt32.ofNat (count.toNat * 4)
  else malformed here (.offsetPastEnd count)

def counted {α : Type} (read : Read α) : Read (List α) := do
  let count ← word
  times read count.toNat

/-- A variable of the given storage class. -/
def var (scope : Scope) : Read Variable := do
  let named ← nameFlag
  let id ← word
  let (code, flags) ← packed
  let type := ValueType.ofCode code
  let valueOffset ← offset
  let raw ← word
  let name ← name named
  let value ← match type with
    | .int => pure (.int raw.toInt32)
    | .float => pure (.float ⟨raw⟩)
    | .raw _ => pure (.raw raw)
    | .string =>
      if raw = 0 then Value.string <$> text
      else malformed valueOffset (.stringValueWord (displayName id name) raw)
  return ⟨id, name, scope, type, flags, value⟩

/-- Variables of the given storage class after their number. -/
def vars (scope : Scope) : Read (Registry Variable) := do
  let records ← counted (var scope)
  return .ofList records

def imported : Read Import := do
  let named ← nameFlag
  let a ← word
  let b ← word
  let c ← word
  let id ← word
  let d ← word
  let e ← word
  let name ← name named
  return ⟨id, name, ⟨a, b, c, d, e⟩⟩

def label : Read Label := do
  let named ← nameFlag
  let id ← word
  let address ← word
  let name ← name named
  return ⟨id, name, address⟩

/-- The declaration of a table, which has no values yet. -/
def table : Read Table := do
  let named ← nameFlag
  let id ← word
  let typeOffset ← offset
  let code ← word
  match ElementType.ofCode? code with
  | none => malformed typeOffset (.tableType code)
  | some type =>
    let length ← word
    let start ← wordOffset
    let name ← name named
    return ⟨id, name, type, length, start, .empty type⟩

/-- Declarations of tables after their number. -/
def tables : Read (Registry Table) := do
  let records ← counted table
  return .ofList records

/-- The declaration of a function, which has no code yet. -/
def function : Read Function := do
  let named ← nameFlag
  let id ← word
  let isPublic := (← word) != 0
  let a ← word
  let codeStart ← wordOffset
  let codeEnd ← wordOffset
  let b ← word
  let c ← word
  let name ← name named
  let vars ← vars .owned
  let tables ← tables
  let labels ← counted label
  return { Function.new id with
    name, isPublic, unknown := ⟨a, b, c⟩, codeStart, codeEnd,
    vars := vars, tables, labels := .ofList labels }

end Read

end ScriptContainer
