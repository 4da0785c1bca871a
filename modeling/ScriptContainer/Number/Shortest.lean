import ScriptContainer.Number.Single

/-!
# Shortest decimals

Every finite float of single precision is written with the fewest digits that read back as the
same float, and among those with the ones nearest to its value. Digits are looked for on one
decimal grid after the other, from coarse to fine. On a grid only the two neighbours of the value
need to be tried, since a third point that reads back would leave a nearer one that does.
-/

namespace ScriptContainer.Number

/-- The number `digits` times ten to the power `exponent`. -/
structure Decimal where
  digits : Nat
  exponent : Int
  deriving DecidableEq, Repr

/-- Which neighbour is taken when both are equally near. -/
inductive Tie where
  | toEven
  | up
  deriving DecidableEq, Repr

/-- The positive rational `numerator / denominator`. -/
structure Ratio where
  numerator : Nat
  denominator : Nat
  deriving DecidableEq, Repr

namespace Ratio

/-- The ratio multiplied by a power of two that is lowered by `bias`. -/
def scaled (n exponent bias : Nat) : Ratio :=
  if bias ≤ exponent then ⟨n * twoTo (exponent - bias), 1⟩ else ⟨n, twoTo (bias - exponent)⟩

/-- The ratio counted in units of ten to the power `exponent`. -/
def inUnits (r : Ratio) (exponent : Int) : Ratio :=
  if 0 ≤ exponent then ⟨r.numerator, r.denominator * tenTo exponent.toNat⟩
  else ⟨r.numerator * tenTo (-exponent).toNat, r.denominator⟩

/-- The number of decimal digits of a natural number. -/
def digitCount (n : Nat) : Nat := (Nat.toDigits 10 n).length

/-- The greatest power of ten that a positive ratio reaches. -/
def decimalExponent (r : Ratio) : Int :=
  if r.denominator ≤ r.numerator then (digitCount (r.numerator / r.denominator) : Int) - 1
  else
    let count := digitCount (r.denominator / r.numerator)
    if r.denominator = r.numerator * tenTo (count - 1) then 1 - (count : Int) else -(count : Int)

end Ratio

/-- The numbers that read back as one float, as multiples of a quarter of its last binary
digit: from `low` to `high`, the ends included when `closed`. -/
structure Basin where
  low : Nat
  value : Nat
  high : Nat
  closed : Bool
  scale : Nat

namespace Basin

/-- The numbers that read back as a finite positive float. -/
def ofSingle (x : Single) : Basin where
  low := 4 * x.significand - (if x.isLowerBoundary then 1 else 2)
  value := 4 * x.significand
  high := 4 * x.significand + 2
  closed := x.significand % 2 == 0
  scale := x.scale

/-- A multiple of the quarter as a ratio. -/
def ratio (b : Basin) (n : Nat) : Ratio := Ratio.scaled n b.scale 152

/-- Whether `n` units of ten to the power `exponent` read back. -/
def holds (b : Basin) (exponent : Int) (n : Nat) : Bool :=
  let low := (b.ratio b.low).inUnits exponent
  let high := (b.ratio b.high).inUnits exponent
  if b.closed then
    decide (low.numerator ≤ n * low.denominator) && decide (n * high.denominator ≤ high.numerator)
  else
    decide (low.numerator < n * low.denominator) && decide (n * high.denominator < high.numerator)

/-- The nearest number of units of ten to the power `exponent` that reads back. -/
def nearest? (b : Basin) (tie : Tie) (exponent : Int) : Option Nat :=
  let value := (b.ratio b.value).inUnits exponent
  let below := value.numerator / value.denominator
  let rest := 2 * (value.numerator % value.denominator)
  match b.holds exponent below, b.holds exponent (below + 1) with
  | false, false => none
  | true, false => some below
  | false, true => some (below + 1)
  | true, true =>
    if rest < value.denominator then some below
    else if value.denominator < rest then some (below + 1)
    else match tie with
      | .up => some (below + 1)
      | .toEven => some (if below % 2 = 0 then below else below + 1)

/-- The first hit on the grids of ten to the power `exponent` and the finer ones. -/
def search (b : Basin) (tie : Tie) : Nat → Int → Decimal
  | 0, exponent => ⟨0, exponent⟩
  | count + 1, exponent =>
    match b.nearest? tie exponent with
    | some n => ⟨n, exponent⟩
    | none => search b tie count (exponent - 1)

end Basin

/-- A number without the zeros at the end of its digits. -/
def stripZeros : Nat → Decimal → Decimal
  | 0, d => d
  | count + 1, d =>
    if d.digits % 10 = 0 ∧ d.digits ≠ 0 then stripZeros count ⟨d.digits / 10, d.exponent + 1⟩ else d

/-- The shortest digits of a finite float other than zero, its sign left aside. Nine digits
tell all floats of single precision apart. -/
def Single.shortest (tie : Tie) (x : Single) : Decimal :=
  let basin := Basin.ofSingle x
  stripZeros 10 (basin.search tie 10 (basin.ratio basin.value).decimalExponent)

end ScriptContainer.Number
