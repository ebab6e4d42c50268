/-!
# Text/Period — lengths of time as messages write them

A length of time is given in the greatest unit that it reaches, with as many decimals as it needs.
-/

namespace FeatureFlags.Period

/-- The decimals of a number of thousandths, without zeros at the end. -/
def decimals (thousandths : Nat) : List Char :=
  let digits := [thousandths / 100, thousandths / 10 % 10, thousandths % 10]
  let kept := (digits.reverse.dropWhile (· == 0)).reverse
  kept.map Nat.digitChar

/-- **The text of a number of milliseconds.** -/
def text (ms : Nat) : String :=
  if ms = 0 then "0ns"
  else if ms < 1000 then toString ms ++ "ms"
  else
    match decimals (ms % 1000) with
    | [] => toString (ms / 1000) ++ "s"
    | digits => toString (ms / 1000) ++ "." ++ String.ofList digits ++ "s"

end FeatureFlags.Period
