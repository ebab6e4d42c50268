import FeatureFlags.Numeric.Reading
import FeatureFlags.Targeting.Rule

/-!
# Targeting/Comparison — truth, equality and order of values

Loose equality turns values of different kinds into each other and refuses those it cannot turn;
strict equality is equality of JSON values.  Two texts are ordered as texts, all else as numbers.
-/

namespace FeatureFlags

namespace Json

/-- **The value counts as true**: not null, false, a zero, or empty. -/
def isTrue : Json → Bool
  | null => false
  | bool b => b
  | num (.int i) => i != 0
  | num (.double x) => !x.isZero
  | str s => !s.isEmpty
  | arr items => !items.isEmpty
  | obj members => !members.isEmpty

/-! ## Equality -/

/-- A number and a text are equal when the text reads as the number. -/
def numberEqualsText (n : Number) (s : String) : Except RuleError Bool :=
  match Binary64.ofText? s with
  | some x => .ok (n.toDouble.eq x)
  | none => .error .incomparable

/-- A boolean as a number. -/
def ofBit (b : Bool) : Binary64 := Binary64.ofNat (if b then 1 else 0)

/-- **Loose equality.** -/
def looselyEqual : Json → Json → Except RuleError Bool
  | null, null => .ok true
  | bool a, bool b => .ok (a == b)
  | num a, num b => .ok (a.toDouble.eq b.toDouble)
  | str a, str b => .ok (a == b)
  | num n, str s => numberEqualsText n s
  | str s, num n => numberEqualsText n s
  | num n, bool b => .ok (n.toDouble.eq (ofBit b))
  | bool b, num n => .ok (n.toDouble.eq (ofBit b))
  | str s, bool b => .ok (s == toString b)
  | bool b, str s => .ok (s == toString b)
  | null, num n => .ok n.toDouble.isZero
  | num n, null => .ok n.toDouble.isZero
  | null, bool b => .ok !b
  | bool b, null => .ok !b
  | null, str s => .ok s.isEmpty
  | str s, null => .ok s.isEmpty
  | obj _, obj _ => .ok false
  | arr a, arr b => if arr a == arr b then .ok true else .error .incomparable
  | _, _ => .error .incomparable

/-! ## Order -/

/-- A scalar as a number: null is zero, a boolean zero or one, an empty text zero. -/
def toNumber? : Json → Option Binary64
  | null => some Binary64.zero
  | bool b => some (ofBit b)
  | num n => some n.toDouble
  | str s => if s.isEmpty then some Binary64.zero else Binary64.ofText? s
  | arr _ => none
  | obj _ => none

def isStructure : Json → Bool
  | arr _ => true
  | obj _ => true
  | _ => false

def isNumber : Json → Bool
  | num _ => true
  | _ => false

end Json

namespace Order

def ofDoubles (order : Order) (x y : Binary64) : Bool :=
  match order with
  | less => x.lt y
  | atMost => x.le y
  | greater => y.lt x
  | atLeast => y.le x

def ofTexts (order : Order) (s t : String) : Bool :=
  match order with
  | less => s < t
  | atMost => !decide (t < s)
  | greater => t < s
  | atLeast => !decide (s < t)

/-- The order seen from the other side. -/
def flip : Order → Order
  | less => greater
  | atMost => atLeast
  | greater => less
  | atLeast => atMost

/-- **The first value stands to the second as the order says.** -/
def holds (order : Order) : Json → Json → Except RuleError Bool
  | .str s, .str t => .ok (order.ofTexts s t)
  | a, b =>
    if a.isStructure || b.isStructure then .error .notNumber
    else
      match a.toNumber?, b.toNumber? with
      | some x, some y => .ok (order.ofDoubles x y)
      | _, _ => if a.isNumber || b.isNumber then .error .notNumber else .ok false

end Order

end FeatureFlags
