import FeatureFlags.Collections.KeyMap
import FeatureFlags.Numeric.Layout

/-!
# Json/Basic — JSON values

A number is an **integer** or a **double**: which of the two it is belongs to the value, since an
integer and a double are never equal and are written differently.  Members of an object ascend by
key, so an object has one form.
-/

namespace FeatureFlags

/-! ## Numbers -/

/-- **A JSON number.**  The integers in use are the signed and the unsigned 64-bit ones. -/
inductive Number
  | int (value : Int)
  | double (value : Binary64)
  deriving DecidableEq, Inhabited, Repr

namespace Number

/-- The greatest unsigned 64-bit integer. -/
def greatestUInt64 : Int := 18446744073709551615

/-- The integer lies in the signed 64-bit range. -/
def isInt64 (i : Int) : Bool :=
  decide (Binary64.leastInt64 ≤ i) && decide (i ≤ Binary64.greatestInt64)

/-- The integer lies in the unsigned 64-bit range. -/
def isUInt64 (i : Int) : Bool := decide (0 ≤ i) && decide (i ≤ greatestUInt64)

/-- The number as a signed 64-bit integer; a double never is one. -/
def int64? : Number → Option Int
  | int i => if isInt64 i then some i else none
  | double _ => none

/-- The number as an unsigned 64-bit integer; a double never is one. -/
def uint64? : Number → Option Nat
  | int i => if isUInt64 i then some i.toNat else none
  | double _ => none

/-- The double nearest to the number. -/
def toDouble : Number → Binary64
  | int i => Binary64.ofInt i
  | double x => x

/-- A finite double is a number. -/
def ofDouble? (x : Binary64) : Option Number := if x.isFinite then some (double x) else none

/-- Equality of numbers of one kind; doubles are equal by value. -/
protected def beq : Number → Number → Bool
  | int i, int j => i == j
  | double x, double y => x.eq y
  | _, _ => false

instance : BEq Number := ⟨Number.beq⟩

/-- The number as JSON text. -/
def text : Number → List Char
  | int i => (toString i).toList
  | double x => if x.isFinite then x.jsonText else ['n', 'u', 'l', 'l']

end Number

/-! ## Values -/

/-- **A JSON value.** -/
inductive Json
  | null
  | bool (value : Bool)
  | num (value : Number)
  | str (value : String)
  | arr (items : List Json)
  | obj (members : List (String × Json))
  deriving Inhabited, Repr

namespace Json

/-- An integer value. -/
abbrev int (i : Int) : Json := num (.int i)

/-- A double value; what is not finite has no JSON form and becomes null. -/
def ofDouble (x : Binary64) : Json :=
  match Number.ofDouble? x with
  | some n => num n
  | none => null

/-- The object of a map. -/
def ofMap (m : KeyMap Json) : Json := obj m.entries

/-! ### Parts -/

def string? : Json → Option String
  | str s => some s
  | _ => none

def members? : Json → Option (List (String × Json))
  | obj members => some members
  | _ => none

def isObject (v : Json) : Bool := v.members?.isSome

/-- The value of a member of an object. -/
def member? (v : Json) (key : String) : Option Json := v.members?.bind (valueAt? key)

/-! ### Equality

Values are equal when they are alike in every part; numbers are equal within their kind only. -/

mutual

/-- **Equality of values.** -/
protected def beq : Json → Json → Bool
  | null, null => true
  | bool a, bool b => a == b
  | num a, num b => a == b
  | str a, str b => a == b
  | arr a, arr b => beqItems a b
  | obj a, obj b => beqMembers a b
  | _, _ => false

def beqItems : List Json → List Json → Bool
  | [], [] => true
  | a :: as, b :: bs => a.beq b && beqItems as bs
  | _, _ => false

def beqMembers : List (String × Json) → List (String × Json) → Bool
  | [], [] => true
  | (k, a) :: as, (l, b) :: bs => k == l && a.beq b && beqMembers as bs
  | _, _ => false

end

instance : BEq Json := ⟨Json.beq⟩

end Json

end FeatureFlags
