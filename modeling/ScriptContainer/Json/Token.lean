import ScriptContainer.Json.Text
import ScriptContainer.Number.Numeral

/-!
# Tokens of JSON

The tokens of a text are its brackets, separators, words, numerals and strings in order; blanks
between them are dropped.
-/

namespace ScriptContainer.Json

open Number

/-- The smallest units of JSON text. -/
inductive Token where
  | openArray | closeArray | openObject | closeObject | comma | colon
  | null | true | false
  | number (numeral : Numeral)
  | string (body : List Char)
  deriving DecidableEq, Repr

/-- Blanks that may stand between tokens. -/
def isBlank (c : Char) : Bool := c = ' ' || c = '\t' || c = '\n' || c = '\r'

/-- The digits at the front, and the rest. -/
def scanDigits (text : List Char) : List Char × List Char := text.span Numeral.isDigit

/-- Digits without a leading zero, and the rest. -/
def scanWhole (text : List Char) : Option (List Char × List Char) :=
  match scanDigits text with
  | ([], _) => none
  | ('0' :: _ :: _, _) => none
  | found => some found

/-- A point with at least one digit, if there is one, and the rest. -/
def scanFraction : List Char → Option (List Char × List Char)
  | '.' :: text =>
    match scanDigits text with
    | ([], _) => none
    | found => some found
  | text => some ([], text)

/-- The sign of a power of ten, if there is one, and the rest. -/
def scanSign : List Char → Option Char × List Char
  | '+' :: text => (some '+', text)
  | '-' :: text => (some '-', text)
  | text => (none, text)

/-- A power of ten with at least one digit after the given mark, and the rest. -/
def scanPowerAfter (mark : Char) (text : List Char) : Option (Option Power × List Char) :=
  let (sign, text) := scanSign text
  match scanDigits text with
  | ([], _) => none
  | (digits, rest) => some (some ⟨mark, sign, digits⟩, rest)

/-- A power of ten, if there is one, and the rest. -/
def scanPower : List Char → Option (Option Power × List Char)
  | 'e' :: text => scanPowerAfter 'e' text
  | 'E' :: text => scanPowerAfter 'E' text
  | text => some (none, text)

/-- A numeral after its sign, and the rest. -/
def scanUnsigned (negative : Bool) (text : List Char) : Option (Numeral × List Char) := do
  let (whole, text) ← scanWhole text
  let (fraction, text) ← scanFraction text
  let (power, text) ← scanPower text
  return (⟨negative, whole, fraction, power⟩, text)

/-- A numeral at the front of a text, and the rest. -/
def scanNumeral : List Char → Option (Numeral × List Char)
  | '-' :: text => scanUnsigned true text
  | text => scanUnsigned false text

/-- The token at the front of a text without blanks before it, and the rest. -/
def scanToken : List Char → Option (Token × List Char)
  | '[' :: rest => some (.openArray, rest)
  | ']' :: rest => some (.closeArray, rest)
  | '\x7b' :: rest => some (.openObject, rest)
  | '\x7d' :: rest => some (.closeObject, rest)
  | ',' :: rest => some (.comma, rest)
  | ':' :: rest => some (.colon, rest)
  | 'n' :: 'u' :: 'l' :: 'l' :: rest => some (.null, rest)
  | 't' :: 'r' :: 'u' :: 'e' :: rest => some (.true, rest)
  | 'f' :: 'a' :: 'l' :: 's' :: 'e' :: rest => some (.false, rest)
  | '\x22' :: rest => (scanBody [] rest).map fun (body, rest) => (.string body, rest)
  | text => (scanNumeral text).map fun (numeral, rest) => (.number numeral, rest)

/-- The tokens of a text after those found so far, which are given in reverse. Each step takes
a character at least, so one more step than there are characters is enough. -/
def scanTokens (found : List Token) : Nat → List Char → Option (List Token)
  | 0, _ => none
  | _ + 1, [] => some found.reverse
  | steps + 1, c :: rest =>
    if isBlank c then scanTokens found steps rest
    else match scanToken (c :: rest) with
      | some (token, rest) => scanTokens (token :: found) steps rest
      | none => none

def tokens? (text : List Char) : Option (List Token) := scanTokens [] (text.length + 1) text

def Token.text : Token → List Char
  | openArray => ['[']
  | closeArray => [']']
  | openObject => ['\x7b']
  | closeObject => ['\x7d']
  | comma => [',']
  | colon => [':']
  | null => ['n', 'u', 'l', 'l']
  | .true => ['t', 'r', 'u', 'e']
  | .false => ['f', 'a', 'l', 's', 'e']
  | number numeral => numeral.text
  | string body => '\x22' :: body ++ ['\x22']

end ScriptContainer.Json
