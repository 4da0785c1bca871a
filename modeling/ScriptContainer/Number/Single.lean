/-!
# Single precision floats

A float of single precision is kept as its thirty-two bits, so that every NaN and both zeros stay
apart. A finite one is a sign and a natural number times a power of two.
-/

namespace ScriptContainer.Number

def twoTo (k : Nat) : Nat := Nat.pow 2 k

def tenTo (k : Nat) : Nat := Nat.pow 10 k

/-- A float of single precision, by its bits. -/
structure Single where
  bits : UInt32
  deriving DecidableEq, Repr

namespace Single

/-- Whether the sign bit is set. -/
def isNegative (x : Single) : Bool := x.bits.toNat / twoTo 31 == 1

/-- The eight bits of the exponent field. -/
def exponentField (x : Single) : Nat := x.bits.toNat / twoTo 23 % twoTo 8

/-- The twenty-three bits of the fraction field. -/
def fractionField (x : Single) : Nat := x.bits.toNat % twoTo 23

def isFinite (x : Single) : Bool := x.exponentField != 255

def isNaN (x : Single) : Bool := x.exponentField == 255 && x.fractionField != 0

/-- Either zero. -/
def isZero (x : Single) : Bool := x.exponentField == 0 && x.fractionField == 0

/-- The integer that the magnitude of a finite float is a power of two times. -/
def significand (x : Single) : Nat :=
  if x.exponentField = 0 then x.fractionField else twoTo 23 + x.fractionField

/-- The power of two, raised by 150, with which the significand of a finite float is
multiplied. -/
def scale (x : Single) : Nat := if x.exponentField = 0 then 1 else x.exponentField

/-- The float below is nearer than the float above: the magnitude is a power of two, and not the
least normal one. -/
def isLowerBoundary (x : Single) : Bool := x.fractionField == 0 && 1 < x.exponentField

end Single

end ScriptContainer.Number
