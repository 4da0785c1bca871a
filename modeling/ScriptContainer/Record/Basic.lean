import ScriptContainer.Number.FloatStyle
import ScriptContainer.Registry
import ScriptContainer.Text

/-!
# Records

Variables, imports, labels and tables. Each record has an id and may have a name.
-/

namespace ScriptContainer

open Number

/-- The storage class of a variable. -/
inductive Scope where
  /-- Made up at run time and held by no section. -/
  | temporary
  | constant
  /-- Declared by a function. -/
  | owned
  | static
  | global
  deriving DecidableEq, Repr

/-- The declared type of a variable. -/
inductive ValueType where
  | float
  | int
  | string
  /-- A type known by its code alone. -/
  | raw (code : UInt32)
  deriving DecidableEq, Repr

namespace ValueType

def code : ValueType → UInt32
  | float => 0
  | int => 1
  | string => 3
  | raw code => code

def ofCode (code : UInt32) : ValueType :=
  if code = 0 then float else if code = 1 then int else if code = 3 then string else raw code

/-- The type as messages show it. -/
def describe : ValueType → String
  | float => "Float"
  | int => "Int"
  | string => "String"
  | raw code => "Raw(" ++ toString code.toNat ++ ")"

end ValueType

/-- The initial value of a variable. -/
inductive Value where
  | int (value : Int32)
  | float (value : Single)
  | string (text : String)
  | raw (word : UInt32)
  deriving DecidableEq, Repr

namespace Value

/-- Whether a variable of this type may hold the value. -/
def fits : Value → ValueType → Bool
  | int _, .int | float _, .float | string _, .string | raw _, .raw _ => true
  | _, _ => false

/-- The value as messages show it. -/
def describe : Value → String
  | int value => "Int(" ++ toString value.toInt ++ ")"
  | float value => "Float(" ++ value.describe ++ ")"
  | string text => "String(" ++ Text.quote text ++ ")"
  | raw word => "Raw(" ++ toString word.toNat ++ ")"

end Value

/-- A variable. -/
structure Variable where
  id : RecordId
  name : Option String
  scope : Scope
  type : ValueType
  /-- A byte kept beside the type code. -/
  flags : UInt8
  value : Value
  deriving DecidableEq, Repr

instance : Named Variable where
  id := Variable.id
  name := Variable.name

namespace Variable

/-- The number of temporaries of every script. -/
def temporaryCount : Nat := 22

/-- The id of the first temporary. -/
def temporaryBase : RecordId := 0x10000100

def temporary (n : Nat) : Variable :=
  ⟨temporaryBase ||| UInt32.ofNat n, none, .temporary, .int, 0, .int 0⟩

/-- The name of the variable, or its number. -/
def describe (v : Variable) : String := displayName v.id v.name

end Variable

/-- Three words. -/
structure Words3 where
  a : UInt32
  b : UInt32
  c : UInt32
  deriving DecidableEq, Repr

namespace Words3

def zero : Words3 := ⟨0, 0, 0⟩

def toList (w : Words3) : List UInt32 := [w.a, w.b, w.c]

/-- The words of a list that holds just as many. -/
def ofList? : List UInt32 → Option Words3
  | [a, b, c] => some ⟨a, b, c⟩
  | _ => none

end Words3

/-- Five words. -/
structure Words5 where
  a : UInt32
  b : UInt32
  c : UInt32
  d : UInt32
  e : UInt32
  deriving DecidableEq, Repr

namespace Words5

def zero : Words5 := ⟨0, 0, 0, 0, 0⟩

def toList (w : Words5) : List UInt32 := [w.a, w.b, w.c, w.d, w.e]

/-- The words of a list that holds just as many. -/
def ofList? : List UInt32 → Option Words5
  | [a, b, c, d, e] => some ⟨a, b, c, d, e⟩
  | _ => none

end Words5

/-- A callee that another script provides. -/
structure Import where
  id : RecordId
  name : Option String
  /-- Words without a known meaning, three before the id and two after it. -/
  unknown : Words5
  deriving DecidableEq, Repr

instance : Named Import where
  id := Import.id
  name := Import.name

/-- A target for jumps inside a function. -/
structure Label where
  id : RecordId
  name : Option String
  /-- The place of the target, in words from the start of the code region. -/
  address : UInt32
  deriving DecidableEq, Repr

instance : Named Label where
  id := Label.id
  name := Label.name

/-- The type of the elements of a table. -/
inductive ElementType where
  | variable | int | float | byte
  deriving DecidableEq, Repr

namespace ElementType

/-- The code of the element type. -/
def code : ElementType → UInt32
  | .variable => 0
  | int => 1
  | float => 2
  | byte => 3

/-- The element type of a code. -/
def ofCode? (code : UInt32) : Option ElementType :=
  if code = 0 then some .variable else if code = 1 then some int
  else if code = 2 then some float else if code = 3 then some byte else none

/-- The number of bytes of an element. -/
def elementSize : ElementType → Nat
  | byte => 1
  | _ => 4

/-- The element type as messages show it. -/
def describe : ElementType → String
  | .variable => "Variable"
  | int => "Int"
  | float => "Float"
  | byte => "Byte"

end ElementType

/-- The elements of a table, variables being given in the form `β`. -/
inductive TableValues (β : Type) where
  | vars (values : List β)
  | ints (values : List Int32)
  | floats (values : List Single)
  | bytes (values : List UInt8)
  deriving DecidableEq, Repr

namespace TableValues

variable {β : Type}

/-- No elements of the given type. -/
def empty : ElementType → TableValues β
  | .variable => vars []
  | .int => ints []
  | .float => floats []
  | .byte => bytes []

def size : TableValues β → Nat
  | vars values => values.length
  | ints values => values.length
  | floats values => values.length
  | bytes values => values.length

def type : TableValues β → ElementType
  | vars _ => .variable
  | ints _ => .int
  | floats _ => .float
  | bytes _ => .byte

end TableValues

/-- A table. -/
structure Table where
  id : RecordId
  name : Option String
  type : ElementType
  /-- The declared number of elements. -/
  length : UInt32
  /-- The place of the payload, in bytes from the start of the code region. -/
  start : UInt32
  values : TableValues VarRef
  deriving DecidableEq, Repr

instance : Named Table where
  id := Table.id
  name := Table.name

/-- The least multiple of four that is not below `n`. -/
def alignUp (n : Nat) : Nat := (n + 3) / 4 * 4

namespace Table

/-- The number of bytes of the payload, its opening and closing words included. -/
def payloadSize (t : Table) : Nat := 8 + alignUp (t.length.toNat * t.type.elementSize)

end Table

end ScriptContainer
