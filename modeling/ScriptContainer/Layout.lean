import ScriptContainer.Instruction.Words
import ScriptContainer.Region.Schedule

/-!
# Laying out the code region

Functions are placed from the last to the first. Each starts where the one before it has ended, and
a function that an instruction starts as a thread is placed right after the instruction unless it
has a place already. Inline functions are left for the instructions that start them; those that
nothing starts follow after all others. Tables come last.
-/

namespace ScriptContainer

/-- The state of laying out: the script, the next free offset, and the functions placed. -/
structure Layout where
  script : Script
  cursor : Nat
  placed : List RecordId

/-- Laying out moves on a layout, also where it fails. -/
abbrev LayOut := EStateM Error Layout

namespace LayOut

/-- Move past `size` bytes; offsets have to fit a word. -/
def advance (size : Nat) : LayOut Unit := do
  let layout ← get
  if layout.cursor + size < UInt32.size then set { layout with cursor := layout.cursor + size }
  else throw (.internal (.regionOverflow layout.cursor))

/-- Whether a function has a place. -/
def isPlaced (id : RecordId) : LayOut Bool := do return (← get).placed.elem id

/-- Change a function of the script. -/
def modifyFunction (id : RecordId) (change : UInt32 → Function → Function) : LayOut Unit :=
  modify fun layout =>
    { layout with script := layout.script.modifyFunction id (change (UInt32.ofNat layout.cursor)) }

def requireFunction (id : RecordId) : LayOut Function := do
  match (← get).script.functions.get? id with
  | some f => return f
  | none => throw (.missingFunction id)

/-- Place a function here, and with it the functions that it starts and that have no place.
Functions stand inside each other at most as deep as there are functions. -/
def place : Nat → RecordId → LayOut Unit
  | 0, id => throw (.placedTwice id)
  | depth + 1, id => do
    if ← isPlaced id then throw (.placedTwice id)
    else
      modify fun layout => { layout with placed := id :: layout.placed }
      let f ← requireFunction id
      modifyFunction id fun cursor f => { f with codeStart := cursor }
      f.code.forM fun instruction => do
        advance instruction.size
        match instruction.spawned? with
        | none => return ()
        | some callee =>
          if ← isPlaced callee then return ()
          else
            let _ ← requireFunction callee
            modifyFunction callee fun _ f => { f with isInline := true }
            place depth callee
      modifyFunction id fun cursor f => { f with codeEnd := cursor }

/-- Place a function unless it has a place. -/
def placeOnce (id : RecordId) : LayOut Unit := do
  if ← isPlaced id then return ()
  else place ((← get).script.functions.size + 1) id

/-- Place a table here and count its elements, whose number has to fit a word. -/
def placeTable (ref : TableRef) (t : Table) : LayOut Unit := do
  if t.values.size < UInt32.size then
    let layout ← get
    let t := { t with length := UInt32.ofNat t.values.size, start := UInt32.ofNat layout.cursor }
    set { layout with script := layout.script.replaceTable ref.owner t }
    advance t.payloadSize
  else throw (.internal (.tooManyValues t.id))

def script : LayOut Unit := do
  let topLevel := (← get).script.functions.records.reverse.filter fun f => !f.isInline
  topLevel.forM fun f => placeOnce f.id
  let layout ← get
  let orphans := layout.script.functions.records.reverse.filter fun f =>
    f.isInline && !layout.placed.elem f.id
  orphans.forM fun f => do
    if ← isPlaced f.id then return ()
    else
      modifyFunction f.id fun _ f => { f with isInline := false }
      placeOnce f.id
  (← get).script.allTables.forM fun (ref, t) => placeTable ref t

end LayOut

/-- Operations that change a script, also where they fail. -/
abbrev Edit := EStateM Error Script

/-- Lay out the code region. The answer is the number of its bytes without filler words. -/
def Script.assignOffsets : Edit Nat := fun s =>
  match LayOut.script ⟨s, 0, []⟩ with
  | .ok () layout => .ok layout.cursor layout.script
  | .error e layout => .error e layout.script

end ScriptContainer
