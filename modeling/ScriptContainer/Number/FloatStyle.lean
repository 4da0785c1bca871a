import ScriptContainer.Number.Numeral
import ScriptContainer.Number.Shortest

/-!
# Styles of writing floats

A style says which decimal exponents are written with the point in place, and how the others are.
A fraction digit always follows the digits of a number with the point in place.
-/

namespace ScriptContainer.Number

/-- How shortest digits become a numeral. -/
structure FloatStyle where
  /-- The neighbour that an exact tie of shortest digits goes to. -/
  tie : Tie
  /-- The least exponent that is written with the point in place. -/
  lowest : Int
  /-- The greatest exponent that is written with the point in place. -/
  highest : Int
  /-- Whether a positive power of ten carries a sign. -/
  plus : Bool

namespace FloatStyle

/-- Digits with the point in place, for a first digit of weight ten to the power `exponent`. -/
def positional (digits : List Char) (exponent : Int) : List Char × List Char :=
  if exponent < 0 then (['0'], List.replicate ((-exponent).toNat - 1) '0' ++ digits)
  else
    let count := exponent.toNat + 1
    let whole := digits.take count ++ List.replicate (count - digits.length) '0'
    match digits.drop count with
    | [] => (whole, ['0'])
    | rest => (whole, rest)

/-- The power of ten of a numeral with one digit before the point. -/
def power (style : FloatStyle) (exponent : Int) : Power :=
  ⟨'e', if exponent < 0 then some '-' else if style.plus then some '+' else none,
    Nat.toDigits 10 exponent.natAbs⟩

/-- The numeral of a finite float. -/
def numeral (style : FloatStyle) (x : Single) : Numeral :=
  if x.isZero then ⟨x.isNegative, ['0'], ['0'], none⟩
  else
    let shortest := x.shortest style.tie
    let digits := Nat.toDigits 10 shortest.digits
    let exponent := shortest.exponent + digits.length - 1
    if style.lowest ≤ exponent ∧ exponent ≤ style.highest then
      let (whole, fraction) := positional digits exponent
      ⟨x.isNegative, whole, fraction, none⟩
    else ⟨x.isNegative, digits.take 1, digits.drop 1, some (style.power exponent)⟩

/-- The style of messages: `1e16` and above and below `0.0001` by powers of ten. -/
def message : FloatStyle := ⟨.up, -4, 15, false⟩

/-- The style of documents: the point in place from `0.000001` up to `1000000000000.0`. -/
def document : FloatStyle := ⟨.toEven, -6, 12, true⟩

end FloatStyle

/-- A float as messages show it. -/
def Single.describe (x : Single) : String :=
  if x.isNaN then "NaN"
  else if x.isFinite then String.ofList (FloatStyle.message.numeral x).text
  else if x.isNegative then "-inf" else "inf"

end ScriptContainer.Number
