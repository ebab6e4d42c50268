import FeatureFlags.Targeting.Comparison
import FeatureFlags.Text.Numeral

/-!
# Targeting/Arithmetic — arithmetic on values

Operands are integers as long as all of them are and nothing overflows 64 bits, doubles from there
on.  A step on doubles never leads to an infinity: the largest double stands for it.  A double
result that is a whole number becomes an integer again, and one that is not finite is null.
-/

namespace FeatureFlags

/-- **An operand**: a signed 64-bit integer or a double. -/
inductive Operand
  | int (value : Int)
  | double (value : Binary64)
  deriving DecidableEq, Inhabited, Repr

namespace Operand

def toDouble : Operand → Binary64
  | int i => Binary64.ofInt i
  | double x => x

def ofNumber (n : Number) : Operand :=
  match n.int64? with
  | some i => int i
  | none => double n.toDouble

/-- A text as an operand: an integer if it reads as one, else a double. -/
def ofText? (s : String) : Option Operand :=
  match Numeral.signed? Binary64.leastInt64 Binary64.greatestInt64 s.toList with
  | some i => some (int i)
  | none => (Binary64.ofText? s).map double

/-- **A value as an operand.**  Null and the empty text are zero, a boolean zero or one. -/
def ofJson? : Json → Option Operand
  | .null => some (int 0)
  | .bool b => some (int (if b then 1 else 0))
  | .num n => some (ofNumber n)
  | .str s => if s.isEmpty then some (int 0) else ofText? s
  | .arr _ => none
  | .obj _ => none

def isZero : Operand → Bool
  | int i => i == 0
  | double x => x.isZero

/-- A double result: an integer if it is whole and not beyond 64 bits, null if it is not finite. -/
def resultOfDouble (x : Binary64) : Json :=
  if x.isWhole && Binary64.leastInt64 ≤ x.truncate && x.truncate ≤ Binary64.greatestInt64 + 1 then
    .int x.toInt64
  else Json.ofDouble x

def result : Operand → Json
  | int i => .int i
  | double x => resultOfDouble x

/-- An integer if it fits 64 bits, else the double given. -/
def checked (i : Int) (overflow : Binary64) : Operand :=
  if Number.isInt64 i then int i else double overflow

end Operand

namespace Arithmetic

open Operand

/-- The operation on doubles. -/
def onDoubles : Arithmetic → Binary64 → Binary64 → Binary64
  | add => Binary64.add
  | subtract => Binary64.sub
  | multiply => Binary64.mul
  | divide => Binary64.div
  | remainder => Binary64.rem

/-- The exact result on integers, where it is one. -/
def onIntegers? : Arithmetic → Int → Int → Option Int
  | add, i, j => some (i + j)
  | subtract, i, j => some (i - j)
  | multiply, i, j => some (i * j)
  | divide, i, j => if i.tmod j = 0 then some (i.tdiv j) else none
  | remainder, i, j => some (i.tmod j)

/-- The operation does not take a zero on its right. -/
def refusesZero : Arithmetic → Bool
  | divide | remainder => true
  | _ => false

/-- What a step on doubles goes on with: the largest double of its sign for an infinity and, in a
sum, a difference or a product, zero for what is no number. -/
def tame (op : Arithmetic) (x : Binary64) : Binary64 :=
  if x.isInfinite then Binary64.largest x.isNegative
  else if x.isNaN && !op.refusesZero then Binary64.zero
  else x

/-- **The operation on two operands.** -/
def combine (op : Arithmetic) (a b : Operand) : Except RuleError Operand :=
  if op.refusesZero && b.isZero then .error .notNumber
  else
    let inexact := op.tame (op.onDoubles a.toDouble b.toDouble)
    match a, b with
    | .int i, .int j =>
      match op.onIntegers? i j with
      | some k => .ok (checked k inexact)
      | none => .ok (double inexact)
    | _, _ => .ok (double inexact)

/-- A value that must be an operand. -/
def operand (v : Json) : Except RuleError Operand :=
  match Operand.ofJson? v with
  | some a => .ok a
  | none => .error .notNumber

/-! ## By the number of arguments -/

/-- The operation over no value. -/
def ofNothing : Arithmetic → RuleResult
  | add => .ok (.int 0)
  | multiply => .ok (.int 1)
  | _ => .error .badArguments

/-- The negative of a value with its operand: an integer only for a number that is one. -/
def negative : Json → Operand → Operand
  | .num _, .int i => checked (-i) (Binary64.ofInt (-i))
  | _, a => double a.toDouble.neg

/-- One step over the items of a list.  Only a sum and a product know integers, and a sum starts
anew from its first double. -/
def itemStep (op : Arithmetic) (acc b : Operand) : Except RuleError Operand :=
  match op, acc, b with
  | add, .int _, .double y => .ok (double y)
  | add, _, _ => add.combine acc b
  | multiply, _, _ => multiply.combine acc b
  | _, _, _ => op.combine (double acc.toDouble) (double b.toDouble)

/-- The operation over the items of a list, from an operand on. -/
def accumulateItems (op : Arithmetic) (acc : Operand) : List Json → RuleResult
  | [] => .ok acc.result
  | v :: rest => do accumulateItems op (← op.itemStep acc (← operand v)) rest

/-- **The operation over the items of a list.** -/
def ofItems (op : Arithmetic) (items : List Json) : RuleResult :=
  match op, items with
  | add, _ => add.accumulateItems (.int 0) items
  | multiply, _ => multiply.accumulateItems (.int 1) items
  | remainder, [_] => .error .badArguments
  | _, [] => .error .badArguments
  | _, v :: rest => do op.accumulateItems (double (← operand v).toDouble) rest

/-- **The operation over one value**: the items of a list, or the negative, the reciprocal or the
value itself. -/
def ofOne (op : Arithmetic) : Json → RuleResult
  | .arr items => op.ofItems items
  | v =>
    match op with
    | remainder => .error .badArguments
    | subtract => do pure (negative v (← operand v)).result
    | divide => do pure (← divide.combine (.int 1) (← operand v)).result
    | _ => do pure (← operand v).result

/-- **The operation over two values.** -/
def ofTwo (op : Arithmetic) (a b : Json) : RuleResult := do
  pure (← op.combine (← operand a) (← operand b)).result

/-! ### Longer rows -/

/-- One more operand in a longer row, which starts with its first. -/
def extend (op : Arithmetic) (acc : Option Operand) (b : Operand) : Except RuleError Operand :=
  match acc with
  | none => .ok b
  | some a => op.combine a b

/-- What a value that is no operand makes of a longer row: null, if a difference starts with it or a
quotient that is an integer so far comes to it; else an error. -/
def withoutOperand (op : Arithmetic) (acc : Option Operand) : RuleResult :=
  match op, acc with
  | subtract, none => .ok .null
  | divide, some (.int _) => .ok .null
  | _, _ => .error .notNumber

end Arithmetic

namespace Extreme

/-- The value of a number; anything else has none. -/
def number? : Json → Option Binary64
  | .num n => some n.toDouble
  | _ => none

/-- The better of a value and the best one so far, each with its number; of equals the earlier. -/
def better (beats : Binary64 → Binary64 → Bool) (best : Option (Json × Binary64))
    (v : Json × Binary64) : Json × Binary64 :=
  match best with
  | some b => if beats v.2 b.2 then v else b
  | none => v

end Extreme

end FeatureFlags
