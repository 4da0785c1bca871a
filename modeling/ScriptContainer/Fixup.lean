import ScriptContainer.Layout

/-!
# Jump targets and label addresses

Targets follow from the ends of the instructions that have been written. Each instruction that
opens or continues a block looks ahead for the instruction that it jumps to, over the blocks of the
same kind that are opened and closed on the way; without one its targets stay as they are. Labels
take the places of label instructions in reverse order of their declaration.
-/

namespace ScriptContainer

/-- Choices in reading and writing a container. -/
structure Options where
  /-- A function has to have as many labels as label instructions. -/
  strictLabels : Bool
  deriving DecidableEq, Repr

namespace Options

/-- Labels and label instructions may differ in number. -/
def lenient : Options := ⟨false⟩

end Options

/-- An instruction with its end, in bytes from the start of the code region. -/
structure Placed where
  instruction : Instruction .bound
  stop : UInt32

namespace Placed

/-- The first instruction that satisfies `stops` outside the blocks between `opens` and
`closes`; `depth` of them are open. -/
def scan (opens closes : Opcode) (stops : Opcode → Bool) : Nat → List Placed → Option Placed
  | _, [] => none
  | depth, p :: rest =>
    let opcode := p.instruction.opcode
    if depth == 0 && stops opcode then some p
    else if opcode = opens then scan opens closes stops (depth + 1) rest
    else if opcode = closes then scan opens closes stops (depth - 1) rest
    else scan opens closes stops depth rest

/-- The next arm of a conditional or its end. -/
def nextArm (rest : List Placed) : Option Placed :=
  scan .if .endIf (fun op => op == .else || op == .elseIf || op == .endIf) 0 rest

def endOfIf (rest : List Placed) : Option Placed := scan .if .endIf (· == .endIf) 0 rest

/-- The next case of a switch. -/
def nextCase (rest : List Placed) : Option Placed :=
  scan .switch .endSwitch (fun op => op == .case || op == .case2) 0 rest

def endOfSwitch (rest : List Placed) : Option Placed :=
  scan .switch .endSwitch (· == .endSwitch) 0 rest

/-- The next case of a switch or its end. -/
def nextCaseOrEnd (rest : List Placed) : Option Placed :=
  scan .switch .endSwitch (fun op => op == .case || op == .case2 || op == .endSwitch) 0 rest

def endOfLoop (rest : List Placed) : Option Placed :=
  scan .doWhile .endDoWhile (· == .endDoWhile) 0 rest

/-- The end of an instruction in words. -/
def target (p : Placed) : UInt32 := p.stop / 4

/-- An offset less some bytes, but not below zero. -/
def lowered (offset bytes : UInt32) : UInt32 := if offset < bytes then 0 else offset - bytes

/-- The targets of an arm that ends at `p`: its own, and the one by which a later arm is skipped.
The end of a conditional is jumped to, and another arm is jumped past. -/
def armTargets (p : Placed) : UInt32 × UInt32 :=
  if p.instruction.opcode = .endIf then
    let t := lowered p.stop 4
    (t / 4, t / 4)
  else (p.stop / 4, lowered p.stop 8 / 4)

end Placed

namespace Instruction

open Placed in
/-- The instruction with the targets that follow from the instructions after it. -/
def retarget (rest : List Placed) : Instruction .bound → Instruction .bound
  | .if condition target unknown1 unknown2 =>
    match nextArm rest with
    | some p => .if condition p.armTargets.1 unknown1 unknown2
    | none => .if condition target unknown1 unknown2
  | .elseIf skipTarget unknown1 condition target unknown3 unknown4 =>
    match nextArm rest with
    | some p => .elseIf p.armTargets.2 unknown1 condition p.armTargets.1 unknown3 unknown4
    | none => .elseIf skipTarget unknown1 condition target unknown3 unknown4
  | .else target => .else (((endOfIf rest).map Placed.target).getD target)
  | .switch value entry exit =>
    match nextCase rest, endOfSwitch rest with
    | some first, some last => .switch value first.target last.target
    | none, some last => .switch value last.target last.target
    | _, none => .switch value entry exit
  | .case value target => .case value (((nextCaseOrEnd rest).map Placed.target).getD target)
  | .case2 value target => .case2 value (((nextCaseOrEnd rest).map Placed.target).getD target)
  | .doWhile condition target =>
    .doWhile condition (((endOfLoop rest).map Placed.target).getD target)
  | other => other

/-- Whether the instruction marks the place of a label. -/
def isLabel (instruction : Instruction .bound) : Bool := instruction.opcode == .label

end Instruction

namespace Placed

/-- The instructions of a body with their targets. -/
def retargetAll : List Placed → Body .bound
  | [] => []
  | p :: rest => p.instruction.retarget rest :: retargetAll rest

end Placed

namespace Function

/-- Fail where labels and label instructions have to agree in number and do not. -/
def checkLabels (options : Options) (f : Function) : Except Error Unit :=
  let markers := (f.code.filter Instruction.isLabel).length
  if options.strictLabels && markers != f.labels.size then
    .error (.malformed f.codeStart.toNat (.labelCount f.describe markers f.labels.size))
  else .ok ()

/-- Give the labels their addresses, from the last label and the first address on. -/
def addressLabels (labels : Registry Label) (ends : List UInt32) : Registry Label :=
  (labels.records.reverse.zip ends).foldl
    (fun labels (l, stop) => labels.replace { l with address := stop / 4 }) labels

/-- The function with the targets and addresses that follow from the ends of its instructions. -/
def fix (options : Options) (f : Function) (ends : List UInt32) : Except Error Function := do
  if ends.length ≠ f.code.length then
    throw (.internal (.instructionCount f.describe f.code.length ends.length))
  else
    f.checkLabels options
    let placed := f.code.zipWith Placed.mk ends
    let markers := (placed.filter fun p => p.instruction.isLabel).map Placed.stop
    return { f with labels := addressLabels f.labels markers, code := Placed.retargetAll placed }

end Function

/-- Set targets and addresses from the last function to the first. Functions without recorded
ends are left alone. -/
def Script.applyFixups (ends : Registry Ends) (options : Options) : Edit Unit := do
  (← get).functions.records.reverse.forM fun f => do
    match ends.get? f.id with
    | none => return ()
    | some found =>
      match f.fix options found.offsets with
      | .ok fixed => modify fun s => { s with functions := s.functions.replace fixed }
      | .error e => throw e

end ScriptContainer
