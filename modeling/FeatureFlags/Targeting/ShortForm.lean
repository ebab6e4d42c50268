import FeatureFlags.Targeting.Arithmetic
import FeatureFlags.Targeting.Lookup

/-!
# Targeting/ShortForm — loops with rules of their own

Three kinds of loop are told by the shape of their body and go through their items without
evaluating it: a list mapped by one operation with a number, a test of each item against a literal,
and a reduction by one operation.  They turn no value into a number: `ItemOperation.onItem` and
`ItemTest.holds` say what becomes of an item that is none.
-/

namespace FeatureFlags

namespace Rule

/-- The path of a variable that is written out and has no default. -/
def plainPath? : Rule → Option Path
  | apply .lookup [] => some Path.whole
  | apply .lookup [path] => path.text?.map Path.ofText
  | _ => none

/-- The segments of a variable that stands for the item or a part of it. -/
def itemPath? (r : Rule) : Option (List String) :=
  match r.plainPath? with
  | some ⟨.data, segments⟩ => some segments
  | _ => none

/-- The rule is the variable of the path, spelled as it is. -/
def isVariable (path : String) : Rule → Bool
  | apply .lookup [literal (.str p)] => p == path
  | _ => false

/-- A number that is written out. -/
def number? : Rule → Option Number
  | literal (.num n) => some n
  | _ => none

end Rule

/-! ## Tests of an item -/

/-- How a value is tested against a literal. -/
inductive LiteralTest
  /-- With any literal, strictly. -/
  | strict (equal : Bool) (value : Json)
  /-- With a number: equal or not. -/
  | loose (equal : Bool) (number : Binary64)
  /-- With a number on the right of the order. -/
  | ordered (order : Order) (number : Binary64)
  deriving Inhabited, Repr

/-- A test of an item, or of a part of it, against a literal. -/
structure ItemTest where
  path : List String
  test : LiteralTest
  deriving Inhabited, Repr

namespace LiteralTest

/-- The test of something on the left against a literal on the right. -/
def of? (operator : Operator) (constant : Json) : Option LiteralTest :=
  match operator, constant with
  | .strictEqual, v => some (strict true v)
  | .strictUnequal, v => some (strict false v)
  | .looseEqual, .num n => some (loose true n.toDouble)
  | .looseUnequal, .num n => some (loose false n.toDouble)
  | .ordered order, .num n => some (ordered order n.toDouble)
  | _, _ => none

/-- The test with its sides exchanged. -/
def flip : LiteralTest → LiteralTest
  | ordered order x => ordered order.flip x
  | c => c

/-- **The test holds.**  What is missing differs from everything; what is no number differs
from every number and stands in no order to it. -/
def holds : LiteralTest → Option Json → Bool
  | strict equal value, some v => (v == value) == equal
  | loose equal x, some (.num n) => n.toDouble.eq x == equal
  | ordered order x, some (.num n) => order.ofDoubles n.toDouble x
  | strict equal _, none => !equal
  | loose equal _, _ => !equal
  | ordered _ _, _ => false

end LiteralTest

namespace ItemTest

/-- A side that is an item or a part of it, and one that is a literal. -/
def ofSides? (operator : Operator) (item constant : Rule) : Option ItemTest :=
  match item.itemPath?, constant.literal? with
  | some path, some v => (LiteralTest.of? operator v).map fun c => ⟨path, c⟩
  | _, _ => none

/-- **The test that a rule is**, with the literal on either side. -/
def ofRule? : Rule → Option ItemTest
  | .apply operator [a, b] =>
    ofSides? operator a b <|>
      (ofSides? operator b a).map fun t => ⟨t.path, t.test.flip⟩
  | _ => none

/-- The item passes the test. -/
def holds (t : ItemTest) (item : Json) : Bool := t.test.holds (item.follow? t.path)

end ItemTest

/-! ## Operations on an item -/

/-- An operation on an item with a number, on either side of it. -/
structure ItemOperation where
  operation : Arithmetic
  number : Binary64
  isNumberFirst : Bool
  deriving Inhabited, Repr

namespace ItemOperation

/-- **The operation on the item that a rule is.** -/
def ofRule? : Rule → Option ItemOperation
  | .apply (.arithmetic op) [a, b] =>
    match a.itemPath?, b.number?, a.number?, b.itemPath? with
    | some [], some n, _, _ => some ⟨op, n.toDouble, false⟩
    | _, _, some n, some [] => some ⟨op, n.toDouble, true⟩
    | _, _, _, _ => none
  | _ => none

/-- The operation on two doubles; null for a division by zero. -/
def onDoubles (op : Arithmetic) (x y : Binary64) : Json :=
  if op.refusesZero && y.isZero then .null else Operand.resultOfDouble (op.onDoubles x y)

/-- **The operation on one item**; null for what is no number. -/
def onItem (o : ItemOperation) : Json → Json
  | .num n =>
    if o.isNumberFirst then onDoubles o.operation o.number n.toDouble
    else onDoubles o.operation n.toDouble o.number
  | _ => .null

end ItemOperation

/-! ## Reductions by one operation -/

namespace Rule

/-- **The operation on the accumulator and the item that a rule is**, in either order. -/
def reductionOperation? : Rule → Option Arithmetic
  | apply (.arithmetic op) [a, b] =>
    let named := a.isVariable "accumulator" && b.isVariable "current" ||
      a.isVariable "current" && b.isVariable "accumulator"
    match op with
    | .add | .multiply | .subtract => if named then some op else none
    | _ => none
  | _ => none

/-- An integer wrapped into 64 signed bits. -/
def wrap (i : Int) : Int := Int.bmod i (Nat.pow 2 64)

/-- The numbers of a list, if it holds nothing else. -/
def numbers? (items : List Json) : Option (List Number) :=
  items.mapM fun
    | .num n => some n
    | _ => none

/-- Reduces numbers: integers wrap, and doubles stay doubles. -/
def reduceNumbers (op : Arithmetic) (first : Number) (items : List Number) : Json :=
  match (first :: items).mapM Number.int64? with
  | some (i :: is) => .int (is.foldl (fun a j => wrap ((op.onIntegers? a j).getD a)) i)
  | _ =>
    Json.ofDouble (items.foldl (fun a n => op.onDoubles a n.toDouble) first.toDouble)

end Rule

end FeatureFlags
