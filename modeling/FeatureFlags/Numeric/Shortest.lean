import FeatureFlags.Numeric.Binary64

/-!
# Numeric/Shortest — the fewest digits that read back as a double

`Binary64.shortest` gives the decimal with the fewest significant digits among those that round to
the double.  The reals that round to it form an interval; the grids of one, two, … seventeen
significant digits are tried in turn, and on each the two neighbours of the exact value are tested.
The first grid with a hit wins, and of two hits the nearer one.  All comparisons are exact.
-/

namespace FeatureFlags

/-- A decimal number `digits * 10 ^ power`; unless it is zero its last digit is not `0`. -/
structure Decimal where
  digits : Nat
  power : Int
  deriving DecidableEq, Inhabited, Repr

/-- Which of two equally near decimals is written. -/
inductive Tie
  | toEven
  | up
  deriving DecidableEq, Inhabited, Repr

namespace Decimal

/-- The same number without trailing zeros.  The fuel bounds how many are removed. -/
def stripZeros : Nat → Nat → Int → Decimal
  | 0, digits, power => ⟨digits, power⟩
  | fuel + 1, digits, power =>
    if digits ≠ 0 ∧ digits % 10 = 0 then stripZeros fuel (digits / 10) (power + 1)
    else ⟨digits, power⟩

/-- How many decimal digits a number is written with. -/
def digitCount (n : Nat) : Nat := (Nat.toDigits 10 n).length

end Decimal

namespace Binary64

/-- The exact value of a positive double, and the ends of the interval of reals that round to it,
all in half units; the ends belong to it when the significand is even. -/
structure RoundingInterval where
  low : Nat
  value : Nat
  high : Nat
  closed : Bool

/-- The interval of reals that round to a positive finite double. -/
def roundingInterval (x : Binary64) : RoundingInterval where
  low := unitsOfBits (x.magnitudeBits - 1) + x.units
  value := 2 * x.units
  high := x.units + unitsOfBits (x.magnitudeBits + 1)
  closed := x.magnitudeBits % 2 == 0

/-- `n * den` half units, scaled by `scale`, lie in the interval. -/
def RoundingInterval.holds (i : RoundingInterval) (scale den n : Nat) : Bool :=
  if i.closed then decide (i.low * scale ≤ n * den) && decide (n * den ≤ i.high * scale)
  else decide (i.low * scale < n * den) && decide (n * den < i.high * scale)

/-- The multiple of `10 ^ power` nearest to the value among its two neighbours, if one of them is in
the interval. -/
def RoundingInterval.onGrid (i : RoundingInterval) (tie : Tie) (power : Int) : Option Decimal :=
  let scale := Nat.pow 10 (-power).toNat
  let den := 2 * unitsPerOne * Nat.pow 10 power.toNat
  let lower := i.value * scale / den
  let twice := 2 * (i.value * scale % den)
  let takeUpper := match compare twice den with
    | .lt => false
    | .gt => true
    | .eq => match tie with
      | .toEven => lower % 2 == 1
      | .up => true
  let first := if takeUpper then lower + 1 else lower
  let second := if takeUpper then lower else lower + 1
  if i.holds scale den first then some ⟨first, power⟩
  else if i.holds scale den second then some ⟨second, power⟩
  else none

/-- The power of ten that bounds a positive value: the least one that is greater. -/
def leadingPower (x : Binary64) : Int :=
  Decimal.digitCount (x.units * Nat.pow 10 400 / unitsPerOne) - 400

/-- **The shortest decimal that reads back as the magnitude of a finite double.** -/
def shortest (tie : Tie) (x : Binary64) : Decimal :=
  if x.isZero then ⟨0, 0⟩
  else
    let interval := x.roundingInterval
    let top := x.leadingPower
    match (List.range 17).findSome? fun n => interval.onGrid tie (top - (n + 1 : Nat)) with
    | some d => Decimal.stripZeros 20 d.digits d.power
    | none => ⟨0, 0⟩

end Binary64

end FeatureFlags
