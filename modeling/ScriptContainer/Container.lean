import ScriptContainer.Fixup
import ScriptContainer.Record.Reading
import ScriptContainer.Record.Writing
import ScriptContainer.Region.Decoding
import ScriptContainer.Region.Emission

/-!
# Containers

A container begins with its magic bytes, the offsets of eight sections in words, and a word that
is zero. The sections follow in order: filler words, declared functions, static variables, tables
with filler words, constants, imports, global variables, and the code region after the count of
its words.
-/

namespace ScriptContainer

/-- The bytes at the start of every container. -/
def magic : List UInt8 := [0x4b, 0x53, 0x4d, 0x52, 0x00, 0x03, 0x01, 0x00]

def sectionCount : Nat := 8

/-- The number of bytes before the first section. -/
def headerSize : Nat := 8 + 4 * sectionCount + 4

namespace Read

/-- The offset of a section from the header, in bytes. -/
def sectionOffset (index : Nat) : Read Nat := do
  let here ← offset
  let count ← word
  if count.toNat * 4 ≤ (← length) then return count.toNat * 4
  else malformed here (.sectionPastEnd index count)

/-- The offsets of all sections, and the zero word after them. -/
def sectionOffsets : Read (List Nat) := do
  let sections ← (List.range sectionCount).mapM sectionOffset
  let here ← offset
  let reserved ← word
  if reserved = 0 then return sections else malformed here (.reservedWord reserved)

/-- Fail unless the next byte begins a section. -/
def enter (sections : List Nat) (index : Nat) : Read Unit := do
  let here ← offset
  let declared := sections.getD index 0
  if here = declared then return () else malformed here (.sectionElsewhere index declared)

/-- Add the variables of a section to a script. -/
def variableSection (s : Script) (scope : Scope) : Read Script := do
  let found ← vars scope
  return found.records.foldl Script.addVariable s

/-- The script of the container that begins after the magic bytes. -/
def script (options : Options) : Read Script := do
  let sections ← sectionOffsets
  enter sections 0
  let front ← wordsUntil (sections.getD 1 0)
  enter sections 1
  let functions ← counted function
  let s := functions.foldl Script.addFunction Script.new
  enter sections 2
  let s ← variableSection s .static
  enter sections 3
  let tables ← tables
  let afterTables ← wordsUntil (sections.getD 4 0)
  let s := { s with tables, padding := ⟨front, afterTables, []⟩ }
  enter sections 4
  let s ← variableSection s .constant
  enter sections 5
  let imports ← counted imported
  let s := imports.foldl Script.addImport s
  enter sections 6
  let s ← variableSection s .global
  enter sections 7
  let countOffset ← offset
  let count ← word
  let remaining := (← get).remaining
  if count.toNat * 4 ≠ remaining then
    malformed countOffset (.codeLength count.toNat remaining)
  else
    let found ← region s
    let s := found.apply s
    s.functions.records.forM fun f =>
      match f.checkLabels options with
      | .ok () => return ()
      | .error e => throw e
    return s

end Read

namespace Script

def parse (options : Options) (bytes : Array UInt8) : Except Error Script :=
  if bytes.toList.take magic.length ≠ magic then .error .notAContainer
  else match Read.script options ⟨bytes, magic.length⟩ with
    | .ok s _ => .ok s
    | .error e _ => .error e

/-- The functions that have a declaration. -/
def declared (s : Script) : List Function := s.functions.records.filter Function.isDeclared

end Script

/-- A container with the place of its code region and the ends of its instructions. -/
structure Built where
  bytes : Array UInt8
  codeBase : Nat
  ends : Registry Ends

/-- What is written of a container up to the code region: the bytes, and where the sections
start. -/
structure Opening where
  writer : Writer
  sections : List Nat

namespace Script

/-- The container up to the count of code words. The header and that count hold zeros. -/
def opening (s : Script) : Except Error Opening := do
  let w := (Writer.empty.append magic).words (List.replicate (sectionCount + 1) 0)
  let section0 := w.position
  let w := w.words s.padding.front
  let section1 := w.position
  let w ← w.functions s.declared
  let section2 := w.position
  let w ← w.vars (s.variablesIn .static)
  let section3 := w.position
  let w := (w.tables s.tables.records).words s.padding.tables
  let section4 := w.position
  let w ← w.vars (s.variablesIn .constant)
  let section5 := w.position
  let w := w.imports s.imports.records
  let section6 := w.position
  let w ← w.vars (s.variablesIn .global)
  let section7 := w.position
  return ⟨w.word 0,
    [section0, section1, section2, section3, section4, section5, section6, section7]⟩

/-- Put bytes in the place of as many earlier ones. -/
def overwrite (w : Writer) (start : Nat) (bytes : Array UInt8) (expected : Nat)
    (stretch : Stretch) : Except Error Writer :=
  if bytes.size ≠ expected then
    .error (.internal (.lengthChanged stretch bytes.size expected))
  else w.patch start bytes.toList

/-- The container with the declarations and code of a script whose targets are set, over the first
writing of it. -/
def finish (s : Script) (first : Opening) (emission : Emission) : Except Error Built := do
  let codeBase := first.writer.position
  let codeWords := (emission.writer.position - codeBase) / 4
  let start := first.sections.getD 1 0
  let declarations ← Writer.empty.functions s.declared
  let w ← overwrite emission.writer start declarations.bytes (first.sections.getD 2 0 - start)
    .declarations
  let second ← s.emit .empty
  let w ← overwrite w codeBase second.writer.bytes (codeWords * 4) .code
  let w ← w.patchWord (first.sections.getD 7 0) (UInt32.ofNat codeWords)
  let w ← (first.sections.zipIdx).foldlM
    (fun w (start, index) => w.patchWord (magic.length + index * 4) (UInt32.ofNat (start / 4))) w
  return ⟨w.bytes, codeBase, second.ends⟩

/-- Lift a result into an edit that leaves the script alone. -/
def settle {α : Type} : Except Error α → Edit α
  | .ok x => pure x
  | .error e => throw e

/-- Lay out a script, write its container, set targets and addresses, and write again what they
change. -/
def build (options : Options) : Edit Built := do
  let _ ← assignOffsets
  let s ← get
  let first ← settle s.opening
  let emission ← settle (s.emit first.writer)
  applyFixups emission.ends options
  let s ← get
  settle (s.finish first emission)

end Script

end ScriptContainer
