/-!
# Numeric/Binary64 — double-precision numbers as words and as exact whole numbers of units

A double is its 64-bit word.  The **unit** is the least positive double, `2 ^ (-1074)`: every finite
double is a whole number of units (`units`), so exact arithmetic on doubles is arithmetic on
natural numbers.  `ofRatio` rounds an exact quotient of naturals to the nearest double, a tie going
to the even significand, and every operation below is "compute exactly, then round once".

An infinity read as units is the number that would follow the largest finite double; so the order of
two doubles that are not NaN is the order of their signed units, infinities included.
-/

namespace FeatureFlags

/-- **A double-precision number**, given by its word. -/
structure Binary64 where
  bits : UInt64
  deriving DecidableEq, Inhabited, Repr

namespace Binary64

/-! ## The fields of a word -/

/-- The 52-bit fraction field. -/
def fraction (x : Binary64) : Nat := x.bits.toNat % Nat.pow 2 52

/-- The 11-bit biased exponent field. -/
def exponent (x : Binary64) : Nat := x.bits.toNat / Nat.pow 2 52 % Nat.pow 2 11

/-- The sign bit is set. -/
def isNegative (x : Binary64) : Bool := Nat.pow 2 63 ≤ x.bits.toNat

/-- The word without its sign bit. -/
def magnitudeBits (x : Binary64) : Nat := x.bits.toNat % Nat.pow 2 63

/-- The word, without sign, of an infinity: all ones in the exponent field. -/
def infinityBits : Nat := 2047 * Nat.pow 2 52

def isFinite (x : Binary64) : Bool := x.magnitudeBits < infinityBits

def isInfinite (x : Binary64) : Bool := x.magnitudeBits == infinityBits

def isNaN (x : Binary64) : Bool := infinityBits < x.magnitudeBits

/-- Either zero. -/
def isZero (x : Binary64) : Bool := x.magnitudeBits == 0

/-- The double with a given sign and a given word without sign. -/
def ofSignMagnitude (negative : Bool) (magnitude : Nat) : Binary64 :=
  ⟨UInt64.ofNat (if negative then Nat.pow 2 63 + magnitude else magnitude)⟩

def zero : Binary64 := ⟨0⟩

def infinity (negative : Bool) : Binary64 := ofSignMagnitude negative infinityBits

def nan : Binary64 := ofSignMagnitude false (infinityBits + Nat.pow 2 51)

/-- The largest finite magnitude, with a sign. -/
def largest (negative : Bool) : Binary64 := ofSignMagnitude negative (infinityBits - 1)

/-! ## Units -/

/-- The units of a word without sign: its significand, shifted by its exponent. -/
def unitsOfBits (magnitude : Nat) : Nat :=
  if magnitude < Nat.pow 2 52 then magnitude
  else (Nat.pow 2 52 + magnitude % Nat.pow 2 52) * Nat.pow 2 (magnitude / Nat.pow 2 52 - 1)

/-- How many units one is. -/
def unitsPerOne : Nat := Nat.pow 2 1074

/-- **The exact magnitude**, in units. -/
def units (x : Binary64) : Nat := unitsOfBits x.magnitudeBits

/-- The exact value, in units. -/
def signedUnits (x : Binary64) : Int := if x.isNegative then -(x.units : Int) else x.units

/-! ## Rounding -/

/-- The whole number nearest to `num / den`; a tie goes to the even one. -/
def roundHalfEven (num den : Nat) : Nat :=
  let quotient := num / den
  let twice := 2 * (num % den)
  if twice < den then quotient
  else if den < twice then quotient + 1
  else quotient + quotient % 2

/-- The word without sign nearest to `num / den` units.  The significand keeps 53 bits; one that
rounds up to `2 ^ 53` carries into the exponent by plain addition, and from the largest finite word
it carries to the infinity. -/
def bitsOfUnits (num den : Nat) : Nat :=
  let shift := Nat.log2 (num / den) - 52
  min (shift * Nat.pow 2 52 + roundHalfEven num (den * Nat.pow 2 shift)) infinityBits

/-- **The double nearest to `num / den`**, a tie going to the even significand. -/
def ofRatio (negative : Bool) (num den : Nat) : Binary64 :=
  ofSignMagnitude negative (bitsOfUnits (num * unitsPerOne) den)

/-- The double nearest to a whole number. -/
def ofInt (i : Int) : Binary64 := ofRatio (i < 0) i.natAbs 1

def ofNat (n : Nat) : Binary64 := ofRatio false n 1

/-- The double nearest to `digits * 10 ^ power`.  Powers that are out of reach of every double are
decided by the number of binary digits alone. -/
def ofDecimal (negative : Bool) (digits : Nat) (power : Int) : Binary64 :=
  if digits = 0 then ofSignMagnitude negative 0
  else if 400 < power then infinity negative
  else if power + digits.log2 < -400 then ofSignMagnitude negative 0
  else if 0 ≤ power then ofRatio negative (digits * Nat.pow 10 power.toNat) 1
  else ofRatio negative digits (Nat.pow 10 (-power).toNat)

/-! ## Arithmetic -/

def neg (x : Binary64) : Binary64 := ofSignMagnitude (!x.isNegative) x.magnitudeBits

def abs (x : Binary64) : Binary64 := ofSignMagnitude false x.magnitudeBits

/-- The exact sum, rounded.  A sum of zero is negative only when both operands are. -/
def add (x y : Binary64) : Binary64 :=
  if x.isNaN || y.isNaN then nan
  else if x.isInfinite then
    if y.isInfinite && x.isNegative != y.isNegative then nan else x
  else if y.isInfinite then y
  else
    let sum := x.signedUnits + y.signedUnits
    let negative := if sum = 0 then x.isNegative && y.isNegative else decide (sum < 0)
    ofSignMagnitude negative (bitsOfUnits sum.natAbs 1)

def sub (x y : Binary64) : Binary64 := if y.isNaN then nan else add x y.neg

/-- The exact product, rounded. -/
def mul (x y : Binary64) : Binary64 :=
  let negative := x.isNegative != y.isNegative
  if x.isNaN || y.isNaN then nan
  else if x.isInfinite || y.isInfinite then
    if x.isZero || y.isZero then nan else infinity negative
  else ofRatio negative (x.units * y.units) (unitsPerOne * unitsPerOne)

/-- The exact quotient, rounded. -/
def div (x y : Binary64) : Binary64 :=
  let negative := x.isNegative != y.isNegative
  if x.isNaN || y.isNaN then nan
  else if x.isInfinite then if y.isInfinite then nan else infinity negative
  else if y.isInfinite then ofSignMagnitude negative 0
  else if y.isZero then if x.isZero then nan else infinity negative
  else ofRatio negative x.units y.units

/-- The remainder of the division that rounds toward zero; it is exact and has the sign of `x`. -/
def rem (x y : Binary64) : Binary64 :=
  if x.isNaN || y.isNaN || x.isInfinite || y.isZero then nan
  else if y.isInfinite then x
  else ofSignMagnitude x.isNegative (bitsOfUnits (x.units % y.units) 1)

/-! ## Comparison -/

/-- Equality of values: the zeros are equal, and NaN is equal to nothing. -/
def eq (x y : Binary64) : Bool := !x.isNaN && !y.isNaN && x.signedUnits == y.signedUnits

def lt (x y : Binary64) : Bool := !x.isNaN && !y.isNaN && decide (x.signedUnits < y.signedUnits)

def le (x y : Binary64) : Bool := !x.isNaN && !y.isNaN && decide (x.signedUnits ≤ y.signedUnits)

/-- The lesser of two doubles; a NaN gives way to the other. -/
def min (x y : Binary64) : Binary64 := if x.isNaN || y.lt x then y else x

/-! ## Whole numbers -/

/-- The value is a whole number. -/
def isWhole (x : Binary64) : Bool := x.isFinite && x.units % unitsPerOne == 0

/-- The value without its fractional part; for a finite double only. -/
def truncate (x : Binary64) : Int :=
  let whole : Int := (x.units / unitsPerOne : Nat)
  if x.isNegative then -whole else whole

/-- The value without its fractional part, as a double; what is not finite has none. -/
def wholePart (x : Binary64) : Binary64 :=
  if x.isFinite then
    ofSignMagnitude x.isNegative (bitsOfUnits (x.units / unitsPerOne * unitsPerOne) 1)
  else x

/-- **The fractional part**: what the whole part leaves. -/
def fract (x : Binary64) : Binary64 := x.sub x.wholePart

/-- The least signed 64-bit integer. -/
def leastInt64 : Int := -9223372036854775808

/-- The greatest signed 64-bit integer. -/
def greatestInt64 : Int := 9223372036854775807

/-- The value truncated, and clamped to the signed 64-bit integers; NaN becomes zero. -/
def toInt64 (x : Binary64) : Int :=
  if x.isNaN then 0
  else Max.max leastInt64 (Min.min greatestInt64 x.truncate)

/-- The truncated value, when it is a signed 64-bit integer. -/
def whole? (x : Binary64) : Option Int :=
  if x.isFinite && leastInt64 ≤ x.truncate && x.truncate ≤ greatestInt64 then some x.truncate
  else none

end Binary64

end FeatureFlags
