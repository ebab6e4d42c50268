import FeatureFlags.Numeric.Reading
import FeatureFlags.Text.Hex
import FeatureFlags.Toml.Basic

/-!
# Toml/Scalar — booleans, numbers and times as TOML writes them

A scalar that is no text is a row of characters without blanks.  Digits may be parted by single
underscores.  An integer fits 64 signed bits; in decimal it has no leading zero, in another base it
has no sign.
-/

namespace FeatureFlags.Toml

/-! ## Digits -/

/-- Digits of a base with single underscores between them, without the underscores. -/
def digitsOf? (isDigit : Char → Bool) : List Char → Option (List Char)
  | [] => none
  | [c] => if isDigit c then some [c] else none
  | c :: '_' :: rest => if isDigit c then (digitsOf? isDigit rest).map (c :: ·) else none
  | c :: rest => if isDigit c then (digitsOf? isDigit rest).map (c :: ·) else none

/-- Decimal digits without a leading zero. -/
def plainDigits? (cs : List Char) : Option (List Char) :=
  match digitsOf? Char.isDigit cs with
  | some ('0' :: _ :: _) => none
  | digits => digits

/-- The number of digits in a base. -/
def ofBase (base : Nat) (digits : List Char) : Nat :=
  digits.foldl (fun n c => base * n + (Hex.value? c).getD 0) 0

/-- The sign of a number and the rest of it. -/
def splitSign : List Char → Bool × List Char
  | '-' :: cs => (true, cs)
  | '+' :: cs => (false, cs)
  | cs => (false, cs)

def isDigitBelow (base : Nat) (c : Char) : Bool := (Hex.value? c).any fun d => decide (d < base)

def fits (i : Int) : Bool :=
  decide (Binary64.leastInt64 ≤ i) && decide (i ≤ Binary64.greatestInt64)

/-- A number in a base other than ten. -/
def prefixed? (base : Nat) (cs : List Char) : Option Int :=
  (digitsOf? (isDigitBelow base) cs).map fun digits => (ofBase base digits : Int)

/-- **An integer.** -/
def integer? (cs : List Char) : Option Int :=
  let value := match cs with
    | '0' :: 'x' :: rest => prefixed? 16 rest
    | '0' :: 'o' :: rest => prefixed? 8 rest
    | '0' :: 'b' :: rest => prefixed? 2 rest
    | cs =>
      let (negative, digits) := splitSign cs
      (plainDigits? digits).map fun ds =>
        let n : Int := ofBase 10 ds
        if negative then -n else n
  value.filter fits

/-! ## Floats -/

/-- An exponent: an optional sign and digits. -/
def isExponent (cs : List Char) : Bool := (digitsOf? Char.isDigit (splitSign cs).2).isSome

def isExponentMark (c : Char) : Bool := c = 'e' || c = 'E'

/-- The text before the first character of a kind, and the text after it if there is one. -/
def cutWhere (mark : Char → Bool) (cs : List Char) : List Char × Option (List Char) :=
  match cs.dropWhile fun c => !mark c with
  | [] => (cs, none)
  | _ :: rest => (cs.takeWhile fun c => !mark c, some rest)

/-- **A float**: digits, then decimals or an exponent or both; or the name of no finite number. -/
def isFloat (cs : List Char) : Bool :=
  let body := (splitSign cs).2
  if body = ['i', 'n', 'f'] ∨ body = ['n', 'a', 'n'] then true
  else
    let (mantissa, exponent) := cutWhere isExponentMark body
    let (whole, decimals) := cutWhere (· = '.') mantissa
    let decimalsOk := (decimals.map fun ds => (digitsOf? Char.isDigit ds).isSome).getD true
    let exponentOk := (exponent.map isExponent).getD true
    let infinite := (Binary64.ofText? (String.ofList (cs.filter (· ≠ '_')))).map fun x =>
      x.isInfinite && !x.isNegative
    (plainDigits? whole).isSome && decimalsOk && exponentOk &&
      (decimals.isSome || exponent.isSome) && !(infinite.getD true)

/-! ## Times -/

/-- A number of exactly `count` digits in front, and the rest. -/
def takeNumber? (count : Nat) (cs : List Char) : Option (Nat × List Char) :=
  let digits := cs.take count
  if digits.length = count ∧ digits.all Char.isDigit then some (ofBase 10 digits, cs.drop count)
  else none

def isLeap (year : Nat) : Bool := year % 4 = 0 && (year % 100 != 0 || year % 400 = 0)

def daysIn (year month : Nat) : Nat :=
  if month = 2 then if isLeap year then 29 else 28
  else if month = 4 ∨ month = 6 ∨ month = 9 ∨ month = 11 then 30
  else 31

/-- A date in front of a text, and the rest. -/
def dropDate? (cs : List Char) : Option (List Char) := do
  let (year, cs) ← takeNumber? 4 cs
  let (month, cs) ← match cs with
    | '-' :: cs => takeNumber? 2 cs
    | _ => none
  let (day, cs) ← match cs with
    | '-' :: cs => takeNumber? 2 cs
    | _ => none
  if 1 ≤ month ∧ month ≤ 12 ∧ 1 ≤ day ∧ day ≤ daysIn year month then some cs else none

/-- A time of day in front of a text, and the rest. -/
def dropTime? (cs : List Char) : Option (List Char) := do
  let (hour, cs) ← takeNumber? 2 cs
  let (minute, cs) ← match cs with
    | ':' :: cs => takeNumber? 2 cs
    | _ => none
  let (second, cs) ← match cs with
    | ':' :: cs => takeNumber? 2 cs
    | _ => none
  if 24 ≤ hour ∨ 60 ≤ minute ∨ 61 ≤ second then none
  else match cs with
    | '.' :: rest =>
      if (rest.takeWhile Char.isDigit).isEmpty then none else some (rest.dropWhile Char.isDigit)
    | cs => some cs

/-- How far local time is from universal time: not said, not at all, or by hours and minutes. -/
def isOffset : List Char → Bool
  | [] => true
  | ['Z'] => true
  | ['z'] => true
  | sign :: cs =>
    if sign = '+' ∨ sign = '-' then
      match takeNumber? 2 cs with
      | some (hour, ':' :: cs) =>
        match takeNumber? 2 cs with
        | some (minute, []) => hour < 24 && minute < 60
        | _ => false
      | _ => false
    else false

/-- **A date, a time, or both.** -/
def isDateTime (cs : List Char) : Bool :=
  match dropDate? cs with
  | some [] => true
  | some (mark :: rest) =>
    (mark = 'T' || mark = 't' || mark = ' ') && ((dropTime? rest).map isOffset).getD false
  | none => ((dropTime? cs).map (·.isEmpty)).getD false

/-! ## Scalars -/

/-- **A scalar that is no text.** -/
def scalar? (cs : List Char) : Option Value :=
  if cs = ['t', 'r', 'u', 'e'] then some (.boolean true)
  else if cs = ['f', 'a', 'l', 's', 'e'] then some (.boolean false)
  else match integer? cs with
    | some i => some (.integer i)
    | none =>
      if isFloat cs then some .float
      else if isDateTime cs then some .dateTime
      else none

end FeatureFlags.Toml
