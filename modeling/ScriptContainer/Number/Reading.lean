import ScriptContainer.Number.Numeral
import ScriptContainer.Number.Rounding

/-!
# Reading floats

An integer of sixty-four bits is rounded to single precision at once. Any other numeral is read
as a double first: its leading digits, as many as fit sixty-four bits, are multiplied or divided
by a power of ten. The double is then rounded to single precision.
-/

namespace ScriptContainer.Number

/-- The digits that have been taken into a significand, and how many could not be. -/
structure Leading where
  significand : Nat
  taken : Nat
  left : Nat

namespace Leading

/-- Take digits for as long as the significand fits sixty-four bits. -/
def take (significand taken : Nat) : List Char → Leading
  | [] => ⟨significand, taken, 0⟩
  | c :: rest =>
    let next := 10 * significand + Numeral.digitValue c
    if next < UInt64.size then take next (taken + 1) rest else ⟨significand, taken, rest.length + 1⟩

end Leading

namespace Binary

/-- A significand times a power of ten as a double, or nothing above the range of doubles.
Powers beyond the range are applied in parts. -/
def ofParts : Nat → Binary → Int → Option Binary
  | 0, b, _ => some b
  | steps + 1, b, exponent =>
    if exponent.natAbs ≤ 308 then
      if 0 ≤ exponent then
        let product := b.mul (powerOfTen exponent.natAbs)
        if product.isInfinite then none else some product
      else some (b.div (powerOfTen exponent.natAbs))
    else if b.significand = 0 then some b
    else if 0 ≤ exponent then none
    else ofParts steps (b.div (powerOfTen 308)) (exponent + 308)

end Binary

namespace Numeral

/-- The leading digits of the numeral, and the power of ten that they stand for. -/
def leading (n : Numeral) : Nat × Int :=
  let whole := Leading.take 0 0 n.whole
  let fraction := Leading.take whole.significand 0 n.fraction
  (fraction.significand, (whole.left : Int) - fraction.taken)

/-- The magnitude of a numeral as a double; nothing where it is too great. -/
def toDouble? (n : Numeral) : Option Binary :=
  let (significand, exponent) := n.leading
  let double := Ratio.toDouble ⟨significand, 1⟩
  match n.power with
  | none => Binary.ofParts 4 double exponent
  | some p =>
    let shift := digitsValue p.digits
    let down := p.sign == some '-'
    if twoTo 31 ≤ shift then (if significand = 0 || down then some ⟨0, 0⟩ else none)
    else Binary.ofParts 4 double (if down then exponent - shift else exponent + shift)

/-- The magnitude of an integer that is read without a detour: up to sixty-four bits, and as a
negative number neither zero nor below the least of sixty-four bits. -/
def smallInteger? (n : Numeral) : Option Nat :=
  if n.fraction.isEmpty && n.power.isNone then
    let value := digitsValue n.whole
    if n.negative then (if 0 < value && value ≤ twoTo 63 then some value else none)
    else if value < UInt64.size then some value else none
  else none

/-- Whether the numeral lies in the range of doubles. -/
def inRange (n : Numeral) : Bool := n.smallInteger?.isSome || n.toDouble?.isSome

/-- The numeral as a float of single precision; nothing outside the range of doubles. -/
def toSingle? (n : Numeral) : Option Single :=
  match n.smallInteger? with
  | some value => some (Ratio.toSingle n.negative ⟨value, 1⟩)
  | none => n.toDouble?.map fun double => Ratio.toSingle n.negative double.ratio

end Numeral

end ScriptContainer.Number
