/-!
# Numerals

A numeral is a number as it is written: its sign, its digits and its power of ten, each as it
stands. Two numerals may denote the same number.
-/

namespace ScriptContainer.Number

/-- The power of ten at the end of a numeral. -/
structure Power where
  mark : Char
  sign : Option Char
  digits : List Char
  deriving DecidableEq, Repr

/-- A number in decimal writing. An empty fraction means that there is no point. -/
structure Numeral where
  negative : Bool
  whole : List Char
  fraction : List Char
  power : Option Power
  deriving DecidableEq, Repr

namespace Numeral

def ofInt (n : Int) : Numeral :=
  ⟨decide (n < 0), Nat.toDigits 10 n.natAbs, [], none⟩

/-- The numeral of a natural number. -/
def ofNat (n : Nat) : Numeral := ⟨false, Nat.toDigits 10 n, [], none⟩

/-- The characters of the power of ten. -/
def powerText : Option Power → List Char
  | none => []
  | some p => p.mark :: p.sign.toList ++ p.digits

/-- The characters of the fraction, the point included. -/
def fractionText : List Char → List Char
  | [] => []
  | digits => '.' :: digits

def text (n : Numeral) : List Char :=
  (if n.negative then ['-'] else []) ++ n.whole ++ fractionText n.fraction ++ powerText n.power

def isDigit (c : Char) : Bool := '0' ≤ c && c ≤ '9'

/-- The value of a digit. -/
def digitValue (c : Char) : Nat := c.toNat - '0'.toNat

/-- The value of a run of digits. -/
def digitsValue (digits : List Char) : Nat :=
  digits.foldl (fun value c => 10 * value + digitValue c) 0

/-- The value of a numeral that is an integer without point, power or negative zero. -/
def toInt? (n : Numeral) : Option Int :=
  if n.fraction.isEmpty && n.power.isNone then
    let value := digitsValue n.whole
    if n.negative then (if value = 0 then none else some (-(value : Int))) else some value
  else none

end Numeral

end ScriptContainer.Number
