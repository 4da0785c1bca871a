import ScriptContainer.Number.Shortest

/-!
# Rounding to binary floats

A ratio is rounded to the nearest number with a bounded significand and a bounded exponent, a tie
going to the even significand. Double and single precision differ only in these bounds, and the
arithmetic of doubles is exact arithmetic followed by rounding.
-/

namespace ScriptContainer.Number

/-- The number `significand` times two to the power `exponent`. -/
structure Binary where
  significand : Nat
  exponent : Int
  deriving DecidableEq, Repr

namespace Binary

def ratio (b : Binary) : Ratio :=
  if 0 ≤ b.exponent then ⟨b.significand * twoTo b.exponent.toNat, 1⟩
  else ⟨b.significand, twoTo (-b.exponent).toNat⟩

end Binary

namespace Ratio

/-- The ratio counted in units of two to the power `exponent`. -/
def inBinaryUnits (r : Ratio) (exponent : Int) : Ratio :=
  if 0 ≤ exponent then ⟨r.numerator, r.denominator * twoTo exponent.toNat⟩
  else ⟨r.numerator * twoTo (-exponent).toNat, r.denominator⟩

/-- The nearest natural number, the even one of two. -/
def round (r : Ratio) : Nat :=
  let below := r.numerator / r.denominator
  let rest := 2 * (r.numerator % r.denominator)
  if rest < r.denominator then below
  else if r.denominator < rest then below + 1
  else if below % 2 = 0 then below else below + 1

/-- The greatest power of two that a positive ratio reaches. -/
def binaryExponent (r : Ratio) : Int :=
  let guess : Int := (Nat.log2 r.numerator : Int) - Nat.log2 r.denominator
  let units := r.inBinaryUnits guess
  if units.denominator ≤ units.numerator then guess else guess - 1

/-- The nearest number of at most `precision` binary digits that is a multiple of two to the
power `least`. -/
def toBinary (precision : Nat) (least : Int) (r : Ratio) : Binary :=
  if r.numerator = 0 then ⟨0, least⟩
  else
    let exponent := max least (r.binaryExponent + 1 - precision)
    let significand := (r.inBinaryUnits exponent).round
    if significand = twoTo precision then ⟨twoTo (precision - 1), exponent + 1⟩
    else ⟨significand, exponent⟩

/-- The nearest double, its sign left aside; exponents have no upper bound here. -/
def toDouble (r : Ratio) : Binary := r.toBinary 53 (-1074)

/-- The bits of the nearest float of single precision, or of infinity above them all. -/
def toSingle (negative : Bool) (r : Ratio) : Single :=
  let b := r.toBinary 24 (-149)
  let magnitude :=
    if b.significand < twoTo 23 then b.significand
    else if 105 ≤ b.exponent then 255 * twoTo 23
    else (b.exponent + 150).toNat * twoTo 23 + (b.significand - twoTo 23)
  ⟨UInt32.ofNat ((if negative then twoTo 31 else 0) + magnitude)⟩

end Ratio

namespace Binary

def isInfinite (b : Binary) : Bool := decide (twoTo 53 ≤ b.significand) || 972 ≤ b.exponent

/-- The double nearest to a power of ten. -/
def powerOfTen (k : Nat) : Binary := Ratio.toDouble ⟨tenTo k, 1⟩

def mul (a b : Binary) : Binary :=
  Ratio.toDouble ⟨a.ratio.numerator * b.ratio.numerator, a.ratio.denominator * b.ratio.denominator⟩

def div (a b : Binary) : Binary :=
  Ratio.toDouble ⟨a.ratio.numerator * b.ratio.denominator, a.ratio.denominator * b.ratio.numerator⟩

end Binary

end ScriptContainer.Number
