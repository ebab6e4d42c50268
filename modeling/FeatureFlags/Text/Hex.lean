/-!
# Text/Hex — hexadecimal digits

Digits are written in lower case and read in either.
-/

namespace FeatureFlags.Hex

/-- The lower-case digit of a number below sixteen. -/
def digit (n : Nat) : Char := if n < 10 then Char.ofNat (48 + n) else Char.ofNat (87 + n)

/-- The number of a digit. -/
def value? (c : Char) : Option Nat :=
  if '0' ≤ c ∧ c ≤ '9' then some (c.toNat - 48)
  else if 'a' ≤ c ∧ c ≤ 'f' then some (c.toNat - 87)
  else if 'A' ≤ c ∧ c ≤ 'F' then some (c.toNat - 55)
  else none

/-- The last `width` digits of a number. -/
def padded : Nat → Nat → List Char
  | 0, _ => []
  | width + 1, n => padded width (n / 16) ++ [digit (n % 16)]

/-- The digits of a number, without leading zeros. -/
def digits (n : Nat) : List Char := Nat.toDigits 16 n

/-- Two digits for each byte. -/
def ofBytes (bytes : List UInt8) : List Char := bytes.flatMap fun b => padded 2 b.toNat

/-- The bytes of an even number of digits. -/
def toBytes? : List Char → Option (List UInt8)
  | [] => some []
  | high :: low :: rest =>
    match value? high, value? low, toBytes? rest with
    | some h, some l, some bytes => some (UInt8.ofNat (16 * h + l) :: bytes)
    | _, _, _ => none
  | [_] => none

/-- The number of a non-empty row of digits. -/
def nat? (cs : List Char) : Option Nat :=
  if cs.isEmpty then none
  else cs.foldlM (fun n c => (value? c).map (16 * n + ·)) 0

end FeatureFlags.Hex
