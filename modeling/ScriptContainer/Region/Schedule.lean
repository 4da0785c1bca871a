import ScriptContainer.Error
import ScriptContainer.Script

/-!
# The schedule of the code region

The code region holds the code of functions and the payloads of tables. Both reading and writing
go through them by their start, and where two start together by their end, so that a part without
bytes comes before the part that starts at the same place.
-/

namespace ScriptContainer

/-- A part of the code region with its first byte and the byte after it. -/
structure Scheduled where
  start : Nat
  stop : Nat
  part : Part
  deriving DecidableEq, Repr

namespace Scheduled

def le (a b : Scheduled) : Bool :=
  decide (a.start < b.start) || (a.start == b.start && decide (a.stop ≤ b.stop))

def ofFunction (f : Function) : Scheduled :=
  ⟨f.codeStart.toNat, f.codeEnd.toNat, .function f.id⟩

def ofTable : TableRef × Table → Scheduled
  | (ref, t) => ⟨t.start.toNat, t.start.toNat + t.payloadSize, .table ref⟩

end Scheduled

/-- The parts of the code region in the order of the schedule; parts of equal place stand in the
order of the script, functions before tables. -/
def Script.schedule (s : Script) : List Scheduled :=
  (s.functions.records.map Scheduled.ofFunction ++ s.allTables.map Scheduled.ofTable).mergeSort Scheduled.le

def Script.requireFunction (s : Script) (id : RecordId) : Except Error Function :=
  match s.functions.get? id with
  | some f => .ok f
  | none => .error (.missingFunction id)

def Script.requireTable (s : Script) (ref : TableRef) : Except Error Table :=
  match s.table? ref with
  | some t => .ok t
  | none => .error (.internal (.missingTable ref.id))

/-- The word that opens a payload. -/
def ElementType.openingWord : ElementType → UInt32
  | .variable => Marker.tableOpenVariable
  | .float => Marker.tableOpenFloat
  | .int | .byte => Marker.tableOpenInt

/-- The ends of the instructions of a function, in bytes from the start of the code region. -/
structure Ends where
  function : RecordId
  offsets : List UInt32
  deriving DecidableEq, Repr

instance : Keyed Ends where
  id := Ends.function

/-- The functions whose scopes the code of a function sees, the outermost first and the function
itself last. -/
structure Chain where
  function : RecordId
  scopes : List RecordId
  deriving DecidableEq, Repr

instance : Keyed Chain where
  id := Chain.function

end ScriptContainer
