import ScriptContainer.Error

/-!
# Reading bytes

A reader stands at an offset of a buffer. Every read either fails and leaves the reader in place
or moves it past what was read; only text that is not valid, or whose count is too great, fails
after the reader has moved.
-/

namespace ScriptContainer

open Number

/-- A buffer and the offset of the next read. -/
structure Reader where
  bytes : Array UInt8
  offset : Nat
  deriving DecidableEq, Repr

/-- Reading moves a reader, also where it fails. -/
abbrev Read := EStateM Error Reader

namespace Reader

/-- A reader at the start of a buffer. -/
def new (bytes : Array UInt8) : Reader := ⟨bytes, 0⟩

/-- The number of bytes from the offset on. -/
def remaining (r : Reader) : Nat := r.bytes.size - r.offset

def isAtEnd (r : Reader) : Bool := r.bytes.size ≤ r.offset

end Reader

namespace Read

/-- The offset of the next read. -/
def offset : Read Nat := do return (← get).offset

def length : Read Nat := do return (← get).bytes.size

/-- Fail with a malformation at an offset. -/
def malformed {α : Type} (offset : Nat) (cause : Malformation) : Read α :=
  throw (.malformed offset cause)

/-- Move to an offset, which may be the end of the buffer. -/
def seek (offset : Nat) : Read Unit := fun r =>
  if offset ≤ r.bytes.size then .ok () { r with offset }
  else .error (.malformed offset .seekPastEnd) r

def bytes (count : Nat) : Read (List UInt8) := fun r =>
  if r.offset + count ≤ r.bytes.size then
    .ok (r.bytes.extract r.offset (r.offset + count)).toList { r with offset := r.offset + count }
  else .error (.malformed r.offset .endOfData) r

def byte : Read UInt8 := do
  match ← bytes 1 with
  | [b] => return b
  | _ => malformed (← offset) .endOfData

/-- The word of four bytes, the lowest first. -/
def wordOfBytes (a b c d : UInt8) : UInt32 :=
  a.toUInt32 ||| (b.toUInt32 <<< 8) ||| (c.toUInt32 <<< 16) ||| (d.toUInt32 <<< 24)

def word : Read UInt32 := do
  match ← bytes 4 with
  | [a, b, c, d] => return wordOfBytes a b c d
  | _ => malformed (← offset) .endOfData

/-- The next word as a signed integer. -/
def signed : Read Int32 := do return (← word).toInt32

/-- The next word as a float. -/
def single : Read Single := do return ⟨← word⟩

/-- The lower twenty-four bits of the next word, and its highest byte. -/
def packed : Read (UInt32 × UInt8) := do
  let w ← word
  return (w &&& 0xffffff, (w >>> 24).toUInt8)

/-- What a reader reads a number of times over. -/
def times {α : Type} (read : Read α) : Nat → Read (List α)
  | 0 => return []
  | count + 1 => do
    let x ← read
    let xs ← times read count
    return x :: xs

/-- A text after its count of words: the bytes up to the first zero byte. -/
def text : Read String := do
  let start ← offset
  let words ← word
  let raw ← bytes (words.toNat * 4)
  match String.fromUTF8? (raw.takeWhile (· != 0)).toByteArray with
  | some text => return text
  | none => malformed start .invalidText

/-- The words from here to an offset, which lies a whole number of words ahead. -/
def wordsUntil (stop : Nat) : Read (List UInt32) := do
  let here ← offset
  if (← length) < stop then malformed here (.paddingPastEnd stop)
  else if stop < here ∨ (stop - here) % 4 ≠ 0 then malformed here (.paddingUnaligned stop)
  else times word ((stop - here) / 4)

end Read

end ScriptContainer
