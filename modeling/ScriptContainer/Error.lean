import ScriptContainer.Record.Basic
import ScriptContainer.Opcode

/-!
# Failures

Each way in which reading, laying out or writing a script can fail is a cause of its own. The
wording of all of them is in `Error.message`.
-/

namespace ScriptContainer

open Text

/-- What is wrong with the bytes of a container. -/
inductive Malformation where
  | endOfData
  | seekPastEnd
  | invalidText
  | paddingPastEnd (stop : Nat)
  | paddingUnaligned (stop : Nat)
  | nameFlag (word : UInt32)
  | offsetPastEnd (word : UInt32)
  | stringValueWord (name : String) (word : UInt32)
  | tableType (code : UInt32)
  | constantFlag (opcode : Opcode)
  | sectionPastEnd (index : Nat) (word : UInt32)
  | reservedWord (word : UInt32)
  | sectionElsewhere (index : Nat) (declared : Nat)
  | codeLength (words : Nat) (remaining : Nat)
  | insideCode (part : Part) (start : Nat)
  | endsBeforeStart (function : String)
  | spawnElsewhere (function : String) (declared : Nat)
  | codeOverrun (stop : Nat)
  | tableOpening (id : RecordId) (word : UInt32)
  | tableClosing (id : RecordId) (word : UInt32)
  | labelCount (function : String) (markers : Nat) (labels : Nat)
  deriving DecidableEq, Repr

/-- A place in the code region whose offset is checked while code is written. -/
inductive Place where
  | part (part : Part)
  | spawned (function : String)
  | endOf (function : String)
  deriving DecidableEq, Repr

/-- A value that does not agree with its declared type. -/
inductive Mismatch where
  | variable (name : String) (type : ValueType) (value : Value)
  | table (id : RecordId) (declared held : ElementType)
  deriving DecidableEq, Repr

/-- A stretch of a container that is written twice. -/
inductive Stretch where
  | declarations
  | code
  deriving DecidableEq, Repr

/-- A disagreement between two stages of writing. -/
inductive Defect where
  | patchPastEnd (length : Nat) (offset : Nat)
  | missingTable (id : RecordId)
  | misplaced (place : Place) (laidOut : Nat) (written : Nat)
  | instructionCount (function : String) (instructions : Nat) (ends : Nat)
  | regionOverflow (offset : Nat)
  | tooManyValues (table : RecordId)
  | lengthChanged (stretch : Stretch) (length : Nat) (expected : Nat)
  deriving DecidableEq, Repr

/-- Why reading, laying out or writing a script failed. -/
inductive Error where
  | notAContainer
  | malformed (offset : Nat) (cause : Malformation)
  | unknownSymbol (kind : Sought) (key : Key)
  | missingFunction (id : RecordId)
  | unknownOpcode (word : UInt32) (offset : Nat)
  | typeMismatch (cause : Mismatch)
  | doubleVisit (part : Part)
  | placedTwice (function : RecordId)
  | internal (cause : Defect)
  deriving DecidableEq, Repr

def Malformation.message : Malformation → String
  | endOfData => "unexpected end of data"
  | seekPastEnd => "seek past end of data"
  | invalidText => "string is not valid UTF-8"
  | paddingPastEnd stop => "padding runs to " ++ hex stop ++ ", past end of data"
  | paddingUnaligned stop => "padding does not end on a word boundary at " ++ hex stop
  | nameFlag word => "invalid name flag " ++ hex word.toNat
  | offsetPastEnd word => "word offset " ++ hex word.toNat ++ " past end of data"
  | stringValueWord name word =>
    "string variable " ++ name ++ " has value word " ++ hex word.toNat
  | tableType code => "invalid table type " ++ hex code.toNat
  | constantFlag opcode => "const flag set on " ++ opcode.describe
  | sectionPastEnd index word =>
    "section " ++ toString index ++ " offset " ++ hex word.toNat ++ " past end of data"
  | reservedWord word => "reserved header word is " ++ hex word.toNat
  | sectionElsewhere index declared =>
    "section " ++ toString index ++ " declared at " ++ hex declared
  | codeLength words remaining =>
    "code section declares " ++ toString words ++ " words but " ++ toString remaining ++
      " bytes follow"
  | insideCode part start =>
    part.term ++ " starts at " ++ hex start ++ ", inside preceding code"
  | endsBeforeStart function => "function " ++ function ++ " ends before it starts"
  | spawnElsewhere function declared =>
    "spawned function " ++ function ++ " declared at " ++ hex declared
  | codeOverrun stop => "code overruns its end at " ++ hex stop
  | tableOpening id word => "table " ++ toString id.toNat ++ " opens with " ++ hex word.toNat
  | tableClosing id word => "table " ++ toString id.toNat ++ " closes with " ++ hex word.toNat
  | labelCount function markers labels =>
    "function " ++ function ++ " has " ++ toString markers ++ " label markers but " ++
      toString labels ++ " labels"

def Place.describe : Place → String
  | .part p => p.term
  | spawned function => function
  | endOf function => "end of " ++ function

def Mismatch.message : Mismatch → String
  | .variable name type value =>
    "variable " ++ name ++ " is declared " ++ type.describe ++ " but holds " ++ value.describe
  | table id declared held =>
    "table " ++ toString id.toNat ++ " is declared " ++ declared.describe ++ " but holds " ++
      held.describe ++ " values"

def Stretch.describe : Stretch → String
  | declarations => "declarations"
  | code => "code"

def Defect.message : Defect → String
  | patchPastEnd length offset =>
    "patch of " ++ toString length ++ " bytes at " ++ hex offset ++ " past end of output"
  | missingTable id => "scheduled table " ++ toString id.toNat ++ " vanished"
  | misplaced place laidOut written =>
    place.describe ++ " laid out at " ++ hex laidOut ++ " but emitted at " ++ hex written
  | instructionCount function instructions ends =>
    "function " ++ function ++ " has " ++ toString instructions ++ " instructions but " ++
      toString ends ++ " recorded offsets"
  | regionOverflow offset => "code region overflows at " ++ hex offset
  | tooManyValues table => "table " ++ toString table.toNat ++ " has too many values"
  | lengthChanged stretch length expected =>
    "rewritten " ++ stretch.describe ++ " is " ++ toString length ++ " bytes, first pass wrote " ++
      toString expected

def Error.message : Error → String
  | notAContainer => "not a KSM container: magic mismatch"
  | malformed offset cause => "malformed file at " ++ hex offset ++ ": " ++ cause.message
  | unknownSymbol kind key => "unknown symbol: " ++ kind.name ++ " " ++ key.describe
  | missingFunction id => "unknown symbol: function " ++ toString id.toNat
  | unknownOpcode word offset => "unknown opcode " ++ hex word.toNat ++ " at " ++ hex offset
  | typeMismatch cause => "type mismatch: " ++ cause.message
  | doubleVisit part => "double visit: " ++ part.describe
  | placedTwice function => "double visit: function " ++ toString function.toNat
  | internal cause => "internal codec error: " ++ cause.message

end ScriptContainer
