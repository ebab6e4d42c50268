import FeatureFlags.Numeric.Shortest

/-!
# Numeric/Layout — how the digits of a double are laid out as text

The digits of a double are its shortest ones; a `NumberLayout` says where positional notation ends
and what surrounds the digits.  There are two layouts: the one of JSON text and the plain one, which
never uses an exponent.
-/

namespace FeatureFlags

/-- How a finite double is written. -/
structure NumberLayout where
  /-- Which of two equally short and near decimals is chosen. -/
  tie : Tie
  /-- The power of ten of the leading digit is one that is written positionally. -/
  isPositional : Int → Bool
  /-- A whole number ends in `.0`. -/
  keepPoint : Bool

namespace NumberLayout

/-- **JSON text**: positional from `1e-5` up to below `1e16` and then with at least one decimal,
otherwise an exponent with its sign. -/
def json : NumberLayout where
  tie := .toEven
  isPositional power := decide (-5 ≤ power) && decide (power ≤ 15)
  keepPoint := true

/-- **Plain text**: always positional, and a whole number has no point. -/
def plain : NumberLayout where
  tie := .up
  isPositional _ := true
  keepPoint := false

end NumberLayout

namespace Decimal

/-- The digits with the point in its place. -/
def positional (d : Decimal) (keepPoint : Bool) : List Char :=
  let digits := Nat.toDigits 10 d.digits
  if 0 ≤ d.power then
    digits ++ List.replicate d.power.toNat '0' ++ if keepPoint then ['.', '0'] else []
  else
    let places := (-d.power).toNat
    let padded := List.replicate (places + 1 - digits.length) '0' ++ digits
    padded.take (padded.length - places) ++ '.' :: padded.drop (padded.length - places)

/-- One digit, the others after a point, and the exponent with its sign. -/
def scientific (d : Decimal) (leading : Int) : List Char :=
  let sign := if leading < 0 then '-' else '+'
  let mantissa := match Nat.toDigits 10 d.digits with
    | first :: second :: rest => first :: '.' :: second :: rest
    | digits => digits
  mantissa ++ 'e' :: sign :: Nat.toDigits 10 leading.natAbs

end Decimal

namespace Binary64

/-- The text of a double under a layout. -/
def text (layout : NumberLayout) (x : Binary64) : List Char :=
  if x.isNaN then ['N', 'a', 'N']
  else
    let sign := if x.isNegative then ['-'] else []
    if x.isInfinite then sign ++ ['i', 'n', 'f']
    else
      let d := x.shortest layout.tie
      let leading := d.power + Decimal.digitCount d.digits - 1
      sign ++ if layout.isPositional leading then d.positional layout.keepPoint
        else d.scientific leading

/-- The text of a double in a JSON document. -/
def jsonText (x : Binary64) : List Char := x.text .json

/-- The text of a double for a reader. -/
def plainText (x : Binary64) : String := String.ofList (x.text .plain)

/-- The numeral of a whole double, digit by digit, with the sign of a negative zero. -/
def wholeText (x : Binary64) : String :=
  (if x.isNegative then "-" else "") ++ toString (x.units / unitsPerOne)

end Binary64

end FeatureFlags
