import ScriptContainer.Instruction.Decoding
import ScriptContainer.Region.Schedule

/-!
# Reading the code region

The schedule is followed from the start of the region. The code of a function that is started as a
thread and has not been read stands right after the instruction that starts it, and is read there.
Code between the scheduled parts is kept in functions without a declaration.
-/

namespace ScriptContainer

/-- Where a function without a declaration belongs among the functions. -/
inductive Placement where
  | after (function : RecordId)
  | front
  deriving DecidableEq, Repr

/-- What the code region holds. -/
structure Findings where
  bodies : List (RecordId × Body .bound)
  inlined : List RecordId
  tables : List (TableRef × TableValues VarRef)
  gaps : List (Placement × Function)
  /-- The words after the last part. -/
  trailing : List UInt32

/-- The state of reading the code region. -/
structure Walk where
  reader : Reader
  seen : Seen
  findings : Findings

/-- Reading the code region moves on a walk. -/
abbrev Walking := EStateM Error Walk

namespace Walking

variable {α : Type}

/-- Read without regard to the walk. -/
def ofRead (read : Read α) : Walking α := fun walk =>
  match read walk.reader with
  | .ok x reader => .ok x { walk with reader }
  | .error e reader => .error e { walk with reader }

/-- A result that does not move the walk. -/
def ofExcept : Except Error α → Walking α
  | .ok x => pure x
  | .error e => throw e

/-- The offset of the next read. -/
def offset : Walking Nat := do return (← get).reader.offset

/-- Fail with a malformation at an offset. -/
def malformed (offset : Nat) (cause : Malformation) : Walking α :=
  throw (.malformed offset cause)

/-- Whether a part has been read. -/
def isSeen (part : Part) : Walking Bool := do return (← get).seen.contains part

/-- Take up a part, which must not have been read before. -/
def visit (part : Part) : Walking Unit := do
  let seen ← ofExcept ((← get).seen.visit part)
  modify fun walk => { walk with seen }

def note (change : Findings → Findings) : Walking Unit :=
  modify fun walk => { walk with findings := change walk.findings }

/-- Steps that are never used up: between two instructions at most three are taken, and an
instruction has at least four bytes. -/
def enoughSteps : Walking Nat := do return (← get).reader.remaining + 2

mutual

/-- The instructions from here up to `stop`, and with them the functions that they start and that
have not been read. -/
def body (ctx : Context) (stop : Nat) : Nat → Walking (Body .bound)
  | 0 => do malformed (← offset) .endOfData
  | steps + 1 => do
    let here ← offset
    if here < stop then
      let instruction ← ofRead (Read.instruction ctx)
      match instruction.spawned? with
      | some id => spawned ctx id steps
      | none => pure ()
      let rest ← body ctx stop steps
      return instruction :: rest
    else if here = stop then return []
    else malformed here (.codeOverrun stop)

/-- The code of a function that has just been started, unless it has been read. -/
def spawned (ctx : Context) (id : RecordId) : Nat → Walking Unit
  | 0 => do malformed (← offset) .endOfData
  | steps + 1 => do
    if ← isSeen (.function id) then return ()
    else
      let f ← ofExcept (ctx.script.requireFunction id)
      let here ← offset
      let declared := ctx.codeBase + f.codeStart.toNat
      if here ≠ declared then malformed here (.spawnElsewhere f.describe declared)
      else
        note fun found => { found with inlined := id :: found.inlined }
        function ctx f steps

/-- The code of a function in its own scope. -/
def function (ctx : Context) (f : Function) : Nat → Walking Unit
  | 0 => do malformed (← offset) .endOfData
  | steps + 1 => do
    visit (.function f.id)
    let here ← offset
    let stop := ctx.codeBase + f.codeEnd.toNat
    if stop < here then malformed here (.endsBeforeStart f.describe)
    else
      let code ← body (ctx.push f) stop steps
      note fun found => { found with bodies := found.bodies ++ [(f.id, code)] }

end

/-- The elements of a table; those that are variables are looked up. -/
def elements (ctx : Context) (t : Table) : Read (TableValues VarRef) :=
  match t.type with
  | .variable => do
    let values ← Read.times (do
      let w ← Read.word
      match ctx.findVariable (.id w) with
      | .ok ref => return ref
      | .error e => throw e) t.length.toNat
    return .vars values
  | .int => .ints <$> Read.times Read.signed t.length.toNat
  | .float => .floats <$> Read.times Read.single t.length.toNat
  | .byte => do
    let values ← Read.bytes t.length.toNat
    let _ ← Read.bytes (alignUp t.length.toNat - t.length.toNat)
    return .bytes values

/-- The payload of a table between its opening and closing words. -/
def payload (ctx : Context) (t : Table) : Read (TableValues VarRef) := do
  let here ← Read.offset
  let opening ← Read.word
  if opening ≠ t.type.openingWord then Read.malformed here (.tableOpening t.id opening)
  else
    let values ← elements ctx t
    let here ← Read.offset
    let closing ← Read.word
    if closing ≠ Marker.tableClose then Read.malformed here (.tableClosing t.id closing)
    else return values

/-- The payload of a table in the scope of its owner. -/
def table (ctx : Context) (ref : TableRef) (t : Table) : Walking Unit := do
  visit (.table ⟨ref.owner, t.id⟩)
  let ctx ← match ref.owner with
    | .script => pure ctx
    | .function id => do
      let f ← ofExcept (ctx.script.requireFunction id)
      pure (ctx.push f)
  let values ← ofRead (payload ctx t)
  note fun found => { found with tables := found.tables ++ [(ref, values)] }

/-- Code before a scheduled part, kept in a function with the given id. -/
def gap (ctx : Context) (id : RecordId) (start : Nat) (next : Part) : Walking Unit := do
  let here ← offset
  let code ← body ctx start (← enoughSteps)
  let f := { Function.new id with
    isDeclared := false
    codeStart := UInt32.ofNat (here - ctx.codeBase)
    codeEnd := UInt32.ofNat (start - ctx.codeBase)
    code }
  let placement := match next with
    | .function id => Placement.after id
    | .table _ => .front
  note fun found => { found with gaps := found.gaps ++ [(placement, f)] }

/-- Read one part of the schedule. The ids from `nextId` on are free for code before it; the
answer is the next id that is free afterwards. -/
def part (ctx : Context) (nextId : RecordId) (scheduled : Scheduled) : Walking RecordId := do
  if ← isSeen scheduled.part then return nextId
  else
    let start := ctx.codeBase + scheduled.start
    let here ← offset
    let nextId ← if here < start then do
        gap ctx nextId start scheduled.part
        pure (nextId + 1)
      else if start < here then malformed here (.insideCode scheduled.part start)
      else pure nextId
    match scheduled.part with
    | .function id =>
      let f ← ofExcept (ctx.script.requireFunction id)
      function ctx f (← enoughSteps)
    | .table ref =>
      let t ← ofExcept (ctx.script.requireTable ref)
      table ctx ref t
    return nextId

/-- Read the parts of the schedule and the words after them. -/
def region (ctx : Context) : Walking Findings := do
  let _ ← ctx.script.schedule.foldlM (part ctx) ctx.script.nextFunctionId
  let trailing ← ofRead (do Read.wordsUntil (← Read.length))
  note fun found => { found with trailing }
  return (← get).findings

end Walking

namespace Read

/-- What the code region from here to the end of the buffer holds. -/
def region (s : Script) : Read Findings := fun r =>
  let ctx := (Context.new s).withCodeBase r.offset
  match Walking.region ctx ⟨r, .nothing, ⟨[], [], [], [], []⟩⟩ with
  | .ok found walk => .ok found walk.reader
  | .error e walk => .error e walk.reader

end Read

namespace Findings

/-- Where a function goes in the list of functions. -/
def placeIn (functions : Registry Function) : Placement → Nat
  | .front => 0
  | .after id =>
    match functions.indexOf? id with
    | some index => index + 1
    | none => functions.size

/-- The script with the code, the table values and the filler words that were found. The id of a gap
is taken only where ids have wrapped around. Such a gap can be put behind all functions here, where
the ordered map described at `Registry.insertAt` stops, so more containers are read than with it. -/
def apply (found : Findings) (s : Script) : Script :=
  let s := found.bodies.foldl (fun s (id, code) =>
    s.modifyFunction id fun f => { f with code, isInline := found.inlined.contains id }) s
  let s := found.tables.foldl (fun s (ref, values) =>
    match s.table? ref with
    | some t => s.replaceTable ref.owner { t with values }
    | none => s) s
  let s := found.gaps.foldl (fun s (placement, f) =>
    { s with functions := s.functions.insertAt (placeIn s.functions placement) f }) s
  { s with padding := { s.padding with code := found.trailing } }

end Findings

end ScriptContainer
