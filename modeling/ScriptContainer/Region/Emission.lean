import ScriptContainer.Bytes.Writer
import ScriptContainer.Instruction.Words
import ScriptContainer.Region.Schedule

/-!
# Writing the code region

The schedule is followed as in reading, and each part has to come out at the offset that was laid
out for it. The code of a function that is started as a thread and has not been written follows the
instruction that starts it.
-/

namespace ScriptContainer

/-- The state of writing the code region. -/
structure Emission where
  writer : Writer
  seen : Seen
  ends : Registry Ends
  /-- The scopes under which each function has been written. -/
  chains : Registry Chain

/-- Writing the code region moves on an emission. -/
abbrev Emit := StateT Emission (Except Error)

namespace Emit

def words (ws : List UInt32) : Emit Unit :=
  modify fun e => { e with writer := e.writer.words ws }

/-- The offset of the next byte from the start of the code region. -/
def offset (codeBase : Nat) : Emit Nat := do return (← get).writer.position - codeBase

/-- Fail unless the next byte stands where it was laid out. -/
def expect (codeBase : Nat) (laidOut : UInt32) (place : Place) : Emit Unit := do
  let written ← offset codeBase
  if written = laidOut.toNat then return ()
  else throw (.internal (.misplaced place laidOut.toNat written))

/-- Whether a part has been written. -/
def isSeen (part : Part) : Emit Bool := do return (← get).seen.contains part

/-- Take up a part, which must not have been written before. -/
def visit (part : Part) : Emit Unit := do
  let seen ← (← get).seen.visit part
  modify fun e => { e with seen }

/-- The code of a function in its own scope, and with it the functions that it starts and that
have not been written. Functions stand inside each other at most as deep as there are functions. -/
def function (ctx : Context) : Nat → Function → Emit Unit
  | 0, f => throw (.doubleVisit (.function f.id))
  | depth + 1, f => do
    visit (.function f.id)
    let inner := ctx.push f
    modify fun e =>
      { e with chains := e.chains.insert ⟨f.id, inner.scopes.reverse.map Function.id⟩ }
    let offsets ← f.code.mapM fun instruction => do
      words (← instruction.encode ctx.script)
      let stop ← offset ctx.codeBase
      match instruction.spawned? with
      | none => pure ()
      | some id =>
        if ← isSeen (.function id) then pure ()
        else
          let spawned ← ctx.script.requireFunction id
          expect ctx.codeBase spawned.codeStart (.spawned spawned.describe)
          function inner depth spawned
      return UInt32.ofNat stop
    modify fun e => { e with ends := e.ends.insert ⟨f.id, offsets⟩ }
    expect ctx.codeBase f.codeEnd (.endOf f.describe)

def table (s : Script) (t : Table) : Emit Unit := do
  if t.values.type ≠ t.type then
    throw (.typeMismatch (.table t.id t.type t.values.type))
  else
    words [t.type.openingWord]
    match t.values with
    | .vars refs => words (← refs.mapM fun ref => s.check (.variable ref))
    | .ints values => words (values.map Int32.toUInt32)
    | .floats values => words (values.map Number.Single.bits)
    | .bytes values => modify fun e => { e with writer := (e.writer.append values).align }
    words [Marker.tableClose]

def part (ctx : Context) (scheduled : Scheduled) : Emit Unit := do
  if ← isSeen scheduled.part then return ()
  else
    expect ctx.codeBase (UInt32.ofNat scheduled.start) (.part scheduled.part)
    match scheduled.part with
    | .function id =>
      let f ← ctx.script.requireFunction id
      function ctx (ctx.script.functions.size + 1) f
    | .table ref =>
      visit (.table ref)
      let t ← ctx.script.requireTable ref
      table ctx.script t

/-- The parts of the schedule and the filler words after them. -/
def region (ctx : Context) : Emit Unit := do
  ctx.script.schedule.forM (part ctx)
  words ctx.script.padding.code

end Emit

/-- Write the code region, which starts at the position of the writer. -/
def Script.emit (s : Script) (w : Writer) : Except Error Emission := do
  let ctx := (Context.new s).withCodeBase w.position
  let ((), emission) ← (Emit.region ctx).run ⟨w, .nothing, .empty, .empty⟩
  return emission

end ScriptContainer
