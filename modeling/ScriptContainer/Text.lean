/-!
# Text of messages

Messages show words and offsets in lowercase hexadecimal after `0x`, and strings between quotes.
A quoted string shows its own limits: quotes and backslashes are escaped, and control characters
appear by name or by code point.
-/

namespace ScriptContainer.Text

/-- The digits of `n` in base sixteen, without leading zeros. -/
def hexDigits (n : Nat) : List Char := Nat.toDigits 16 n

/-- Hexadecimal text without padding, such as `0x2c`. -/
def hex (n : Nat) : String := String.ofList ('0' :: 'x' :: hexDigits n)

/-- Hexadecimal text of at least two digits, such as `0x0a`. -/
def hexByte (n : Nat) : String :=
  if n < 16 then String.ofList ('0' :: 'x' :: '0' :: hexDigits n) else hex n

/-- The control characters of the first two blocks. -/
def isControl (c : Char) : Bool := c.toNat < 0x20 || (0x7f ≤ c.toNat && c.toNat < 0xa0)

/-- One character as it stands between double quotes. -/
def quoteChar (c : Char) : List Char :=
  if c = '\x22' then ['\\', '\x22']
  else if c = '\\' then ['\\', '\\']
  else if c = '\n' then ['\\', 'n']
  else if c = '\r' then ['\\', 'r']
  else if c = '\t' then ['\\', 't']
  else if c = '\x00' then ['\\', '0']
  else if isControl c then '\\' :: 'u' :: '\x7b' :: hexDigits c.toNat ++ ['\x7d']
  else [c]

/-- A string between double quotes with its special characters escaped. -/
def quote (s : String) : String :=
  String.ofList ('\x22' :: s.toList.flatMap quoteChar ++ ['\x22'])

end ScriptContainer.Text
