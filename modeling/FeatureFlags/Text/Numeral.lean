/-!
# Text/Numeral — whole numbers as text

A numeral is a non-empty row of decimal digits; an unsigned one may have a plus sign before it, a
signed one either sign.
-/

namespace FeatureFlags.Numeral

/-- The number that a row of decimal digits writes. -/
def value (cs : List Char) : Nat := cs.foldl (fun n c => 10 * n + (c.toNat - 48)) 0

/-- The digits at the front of a text, and the rest. -/
def span (cs : List Char) : List Char × List Char :=
  (cs.takeWhile Char.isDigit, cs.dropWhile Char.isDigit)

/-- The number a row of digits writes, if it is one. -/
def digits? (cs : List Char) : Option Nat :=
  if cs.isEmpty || !cs.all Char.isDigit then none else some (value cs)

/-- A whole number with an optional sign. -/
def integer? : List Char → Option Int
  | '-' :: cs => (digits? cs).map fun n => -(n : Int)
  | '+' :: cs => (digits? cs).map fun n => (n : Int)
  | cs => (digits? cs).map fun n => (n : Int)

/-- **An unsigned whole number**, at most `greatest`. -/
def unsigned? (greatest : Nat) (cs : List Char) : Option Nat :=
  let digits := match cs with
    | '+' :: rest => rest
    | cs => cs
  (digits? digits).filter (· ≤ greatest)

/-- **A signed whole number** within the given bounds. -/
def signed? (least greatest : Int) (cs : List Char) : Option Int :=
  (integer? cs).filter fun i => decide (least ≤ i) && decide (i ≤ greatest)

/-- The greatest unsigned 64-bit number. -/
def greatest64 : Nat := 18446744073709551615

end FeatureFlags.Numeral
