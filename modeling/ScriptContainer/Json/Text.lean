/-!
# Text between quotes

The body of a JSON string is kept as it is written. `escape` writes a text as a body and
`unescape?` reads a body, which fails where an escape names half of a surrogate pair.
-/

namespace ScriptContainer.Json

/-- The digit of a number below sixteen. -/
def hexDigit (n : Nat) : Char := Nat.digitChar n

/-- One character in the body of a string. -/
def escapeChar (c : Char) : List Char :=
  if c = '\x22' then ['\\', '\x22']
  else if c = '\\' then ['\\', '\\']
  else if c = '\x08' then ['\\', 'b']
  else if c = '\x0c' then ['\\', 'f']
  else if c = '\n' then ['\\', 'n']
  else if c = '\r' then ['\\', 'r']
  else if c = '\t' then ['\\', 't']
  else if c.toNat < 0x20 then
    ['\\', 'u', '0', '0', hexDigit (c.toNat / 16), hexDigit (c.toNat % 16)]
  else [c]

/-- The body of the string that holds a text. -/
def escape (text : List Char) : List Char := text.flatMap escapeChar

/-- The value of a hexadecimal digit in either case. -/
def hexValue? (c : Char) : Option Nat :=
  if '0' ≤ c ∧ c ≤ '9' then some (c.toNat - '0'.toNat)
  else if 'a' ≤ c ∧ c ≤ 'f' then some (c.toNat - 'a'.toNat + 10)
  else if 'A' ≤ c ∧ c ≤ 'F' then some (c.toNat - 'A'.toNat + 10)
  else none

/-- The sixteen-bit unit of four hexadecimal digits. -/
def unit? (a b c d : Char) : Option Nat := do
  let a ← hexValue? a
  let b ← hexValue? b
  let c ← hexValue? c
  let d ← hexValue? d
  return 4096 * a + 256 * b + 16 * c + d

/-- The character of an escape of two characters. -/
def simpleEscape? (c : Char) : Option Char :=
  if c = '\x22' then some '\x22'
  else if c = '\\' then some '\\'
  else if c = '/' then some '/'
  else if c = 'b' then some '\x08'
  else if c = 'f' then some '\x0c'
  else if c = 'n' then some '\n'
  else if c = 'r' then some '\r'
  else if c = 't' then some '\t'
  else none

/-- The unit opens a surrogate pair. -/
def isHighSurrogate (unit : Nat) : Bool := 0xd800 ≤ unit && unit < 0xdc00

/-- The unit closes a surrogate pair. -/
def isLowSurrogate (unit : Nat) : Bool := 0xdc00 ≤ unit && unit < 0xe000

/-- Read on through a body, with the text before it in reverse and perhaps the first half of a
surrogate pair waiting for the second. -/
def unescapeFrom (text : List Char) (high : Option Nat) : List Char → Option (List Char)
  | '\\' :: 'u' :: a :: b :: c :: d :: rest =>
    match unit? a b c d, high with
    | none, _ => none
    | some unit, some first =>
      if isLowSurrogate unit then
        let code := 0x10000 + 0x400 * (first - 0xd800) + (unit - 0xdc00)
        unescapeFrom (Char.ofNat code :: text) none rest
      else none
    | some unit, none =>
      if isHighSurrogate unit then unescapeFrom text (some unit) rest
      else if isLowSurrogate unit then none
      else unescapeFrom (Char.ofNat unit :: text) none rest
  | '\\' :: c :: rest =>
    match high, simpleEscape? c with
    | none, some plain => unescapeFrom (plain :: text) none rest
    | _, _ => none
  | c :: rest =>
    if high.isSome || c = '\\' then none else unescapeFrom (c :: text) none rest
  | [] => if high.isSome then none else some text.reverse

/-- The text that a body holds. -/
def unescape? (body : List Char) : Option (List Char) := unescapeFrom [] none body

/-- The body of a string and what follows its closing quote; the opening quote has been read, and
the body so far is given in reverse. Escapes are checked for their form only. -/
def scanBody (body : List Char) : List Char → Option (List Char × List Char)
  | '\x22' :: rest => some (body.reverse, rest)
  | '\\' :: 'u' :: a :: b :: c :: d :: rest =>
    if (unit? a b c d).isSome then scanBody (d :: c :: b :: a :: 'u' :: '\\' :: body) rest
    else none
  | '\\' :: c :: rest =>
    if (simpleEscape? c).isSome then scanBody (c :: '\\' :: body) rest else none
  | c :: rest => if c = '\\' || c.toNat < 0x20 then none else scanBody (c :: body) rest
  | [] => none

end ScriptContainer.Json
