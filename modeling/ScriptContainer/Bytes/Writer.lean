import ScriptContainer.Error

/-!
# Writing bytes

A writer appends to the bytes written so far and can overwrite bytes in place.
-/

namespace ScriptContainer

open Number

/-- The bytes written so far. -/
structure Writer where
  bytes : Array UInt8
  deriving DecidableEq, Repr

/-- The four bytes of a word, the lowest first. -/
def bytesOfWord (word : UInt32) : List UInt8 :=
  [word.toUInt8, (word >>> 8).toUInt8, (word >>> 16).toUInt8, (word >>> 24).toUInt8]

/-- The number of words of a text with the zero byte that closes it. -/
def textWords (text : String) : Nat := (text.utf8ByteSize + 1 + 3) / 4

namespace Writer

def empty : Writer := ⟨#[]⟩

/-- The offset of the next byte. -/
def position (w : Writer) : Nat := w.bytes.size

def append (w : Writer) (bytes : List UInt8) : Writer := ⟨w.bytes ++ bytes⟩

def byte (w : Writer) (b : UInt8) : Writer := ⟨w.bytes.push b⟩

def word (w : Writer) (word : UInt32) : Writer := w.append (bytesOfWord word)

def words (w : Writer) (words : List UInt32) : Writer := words.foldl word w

/-- Write a signed integer as a word. -/
def signed (w : Writer) (value : Int32) : Writer := w.word value.toUInt32

/-- Write a float as a word. -/
def single (w : Writer) (value : Single) : Writer := w.word value.bits

/-- Write zero bytes up to a multiple of four. -/
def align (w : Writer) : Writer := w.append (List.replicate ((4 - w.position % 4) % 4) 0)

/-- Write a text after its count of words, with zero bytes up to a multiple of four. -/
def text (w : Writer) (text : String) : Writer :=
  (((w.word (UInt32.ofNat (textWords text))).append text.toUTF8.toList).byte 0).align

/-- Overwrite bytes from an offset on. -/
def patch (w : Writer) (offset : Nat) (bytes : List UInt8) : Except Error Writer :=
  if offset + bytes.length ≤ w.bytes.size then
    .ok ⟨w.bytes.extract 0 offset ++ bytes ++
      w.bytes.extract (offset + bytes.length) w.bytes.size⟩
  else .error (.internal (.patchPastEnd bytes.length offset))

/-- Overwrite a word at an offset. -/
def patchWord (w : Writer) (offset : Nat) (word : UInt32) : Except Error Writer :=
  w.patch offset (bytesOfWord word)

end Writer

end ScriptContainer
