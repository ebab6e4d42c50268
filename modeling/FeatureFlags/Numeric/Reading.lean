import FeatureFlags.Numeric.Binary64
import FeatureFlags.Text.Numeral

/-!
# Numeric/Reading — doubles written as text

A double is written as an optional sign and either a name (`inf`, `infinity`, `nan`, in any case) or
digits with at most one point among them, at least one digit, and an optional exponent.  Nothing may
stand before or after it.
-/

namespace FeatureFlags.Binary64

/-- A letter in lower case. -/
def lowered (cs : List Char) : List Char := cs.map Char.toLower

/-- The exponent behind the digits: absent, or the letter and a whole number. -/
def exponentOfText? : List Char → Option Int
  | [] => some 0
  | e :: rest => if e = 'e' ∨ e = 'E' then Numeral.integer? rest else none

/-- A double written with digits. -/
def ofDigitsText? (negative : Bool) (cs : List Char) : Option Binary64 :=
  let (whole, rest) := Numeral.span cs
  let (decimals, rest) := match rest with
    | '.' :: rest => Numeral.span rest
    | rest => ([], rest)
  if whole.isEmpty && decimals.isEmpty then none
  else (exponentOfText? rest).map fun power =>
    ofDecimal negative (Numeral.value (whole ++ decimals)) (power - decimals.length)

/-- **Reads a double.** -/
def ofText? (text : String) : Option Binary64 :=
  let (negative, cs) := match text.toList with
    | '-' :: rest => (true, rest)
    | '+' :: rest => (false, rest)
    | cs => (false, cs)
  let name := String.ofList (lowered cs)
  if name = "inf" ∨ name = "infinity" then some (infinity negative)
  else if name = "nan" then some nan
  else ofDigitsText? negative cs

end FeatureFlags.Binary64
