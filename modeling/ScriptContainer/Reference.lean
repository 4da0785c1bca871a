/-!
# References

Records are numbered by id, and each kind of record is numbered on its own: a local variable, a
function and an import may share an id. A bound reference therefore says which record it means,
while a key, the form in which a reference is looked up, holds an id or a name only.
-/

namespace ScriptContainer

/-- The number of a record. -/
abbrev RecordId := UInt32

/-- Where a variable or table is declared. -/
inductive Owner where
  | script
  | function (id : RecordId)
  deriving DecidableEq, Repr

/-- A bound variable. -/
structure VarRef where
  owner : Owner
  id : RecordId
  deriving DecidableEq, Repr

/-- A bound table. -/
structure TableRef where
  owner : Owner
  id : RecordId
  deriving DecidableEq, Repr

/-- A bound label; labels belong to functions. -/
structure LabelRef where
  function : RecordId
  id : RecordId
  deriving DecidableEq, Repr

/-- What a call or a thread starts. -/
inductive Callee where
  | function (id : RecordId)
  | imported (id : RecordId)
  deriving DecidableEq, Repr

/-- Any bound record. -/
inductive Symbol where
  | label (ref : LabelRef)
  | variable (ref : VarRef)
  | table (ref : TableRef)
  | imported (id : RecordId)
  | function (id : RecordId)
  deriving DecidableEq, Repr

/-- The kinds of record that a reference may look for. -/
inductive Sought where
  | symbol | variable | label | table | callee | imported | function
  deriving DecidableEq, Repr

namespace Sought

/-- The word by which messages name the kind. -/
def name : Sought → String
  | symbol => "symbol"
  | .variable => "variable"
  | label => "label"
  | table => "table"
  | callee => "callee"
  | imported => "import"
  | function => "function"

end Sought

namespace Callee

def id : Callee → RecordId
  | function id | imported id => id

def toSymbol : Callee → Symbol
  | function id => .function id
  | imported id => .imported id

end Callee

namespace Symbol

/-- The number that stands for the symbol in a container. -/
def id : Symbol → RecordId
  | label ref => ref.id
  | .variable ref => ref.id
  | table ref => ref.id
  | imported id | function id => id

/-- The kind of the bound record. -/
def kind : Symbol → Sought
  | label _ => .label
  | .variable _ => .variable
  | table _ => .table
  | imported _ => .imported
  | function _ => .function

end Symbol

/-- The form in which a reference is looked up. -/
inductive Key where
  | id (number : RecordId)
  | name (text : String)
  deriving DecidableEq, Repr

namespace Key

/-- The value of a digit in bases up to sixteen. -/
def digit? (c : Char) : Option Nat :=
  if '0' ≤ c ∧ c ≤ '9' then some (c.toNat - '0'.toNat)
  else if 'a' ≤ c ∧ c ≤ 'f' then some (c.toNat - 'a'.toNat + 10)
  else if 'A' ≤ c ∧ c ≤ 'F' then some (c.toNat - 'A'.toNat + 10)
  else none

/-- The value of a digit string that continues `value`. -/
def digitsFrom (base : Nat) : Nat → List Char → Option Nat
  | value, [] => some value
  | value, c :: rest =>
    match digit? c with
    | some d => if d < base then digitsFrom base (base * value + d) rest else none
    | none => none

/-- An id in the given base. One plus sign may come first, at least one digit must follow, and
the value must fit a word. -/
def readId? (base : Nat) (text : List Char) : Option RecordId :=
  let digits := match text with
    | '+' :: rest => rest
    | other => other
  if digits.isEmpty then none
  else match digitsFrom base 0 digits with
    | some value => if value < UInt32.size then some (UInt32.ofNat value) else none
    | none => none

/-- The id that follows `ref:`, hexadecimal after `0x` and decimal otherwise. -/
def numbered? : List Char → Option RecordId
  | 'r' :: 'e' :: 'f' :: ':' :: rest =>
    match rest with
    | '0' :: 'x' :: digits => readId? 16 digits
    | digits => readId? 10 digits
  | _ => none

/-- The key that a text spells: `ref:` and an id, or else a name. -/
def parse (text : String) : Key :=
  match numbered? text.toList with
  | some number => .id number
  | none => .name text

/-- The spelling of a reference by number. -/
def spellId (id : RecordId) : String := "ref:" ++ toString id.toNat

def describe : Key → String
  | .id number => spellId number
  | .name text => text

/-- Whether a record with this id and name answers to the key. -/
def matchesRecord (key : Key) (id : RecordId) (name : Option String) : Bool :=
  match key with
  | .id number => number == id
  | .name text => name == some text

end Key

/-- How a record is called: by name where it has one, and by number otherwise. -/
def displayName (id : RecordId) : Option String → String
  | some name => name
  | none => Key.spellId id

/-- A function or a table, the parts that make up the code region. -/
inductive Part where
  | function (id : RecordId)
  | table (ref : TableRef)
  deriving DecidableEq, Repr

namespace Part

/-- The part in the manner of a constructor term. -/
def term : Part → String
  | function id => "Function(" ++ toString id.toNat ++ ")"
  | table ⟨.script, id⟩ => "Table(Script, " ++ toString id.toNat ++ ")"
  | table ⟨.function owner, id⟩ =>
    "Table(Function(" ++ toString owner.toNat ++ "), " ++ toString id.toNat ++ ")"

def describe : Part → String
  | function id => "function " ++ Key.spellId id
  | table ⟨.script, id⟩ => "table " ++ Key.spellId id
  | table ⟨.function owner, id⟩ =>
    "table " ++ Key.spellId id ++ " of function " ++ toString owner.toNat

end Part

end ScriptContainer
