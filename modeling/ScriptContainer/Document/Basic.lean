import ScriptContainer.Script

/-!
# Documents

A document describes a script record by record in a form that can be edited. References are
spelled as the name of a record or as `ref:` and its id. Lists keep whatever they are given, also
records that repeat an id.
-/

namespace ScriptContainer

open Number

namespace Document

/-- The type and the initial value of a variable together. -/
inductive Value where
  | int (value : Int32)
  | float (value : Single)
  /-- A float by its bits, for floats that a numeral cannot express. -/
  | floatBits (bits : UInt32)
  | string (text : String)
  | raw (code value : UInt32)
  deriving DecidableEq, Repr

/-- A variable. -/
structure Variable where
  id : RecordId
  name : Option String
  scope : Scope
  flags : UInt8
  value : Value
  deriving DecidableEq, Repr

/-- A table. -/
structure Table where
  id : RecordId
  name : Option String
  start : UInt32
  values : TableValues String
  deriving DecidableEq, Repr

/-- A function. -/
structure Function where
  id : RecordId
  name : Option String
  isPublic : Bool
  isInline : Bool
  isDeclared : Bool
  unknown : Words3
  codeStart : UInt32
  codeEnd : UInt32
  vars : List Variable
  tables : List Table
  labels : List Label
  code : Body .spelled

end Document

/-- A script in the form of a document. Temporaries are left out. -/
structure Document where
  imports : List Import
  vars : List Document.Variable
  tables : List Document.Table
  functions : List Document.Function
  padding : Padding

end ScriptContainer
