import FeatureFlags.Json.Basic

/-!
# Evaluation/Value — the types a flag can be resolved to

A variant is any JSON value; a caller asks for it as one of five types.  `FlagValue.coerce` gives
the value in that type, or nothing when the variant is not of it.
-/

namespace FeatureFlags

/-- **The type a caller asks for.** -/
inductive FlagType
  | boolean
  | text
  | integer
  | double
  | object
  deriving DecidableEq, Inhabited, Repr

/-- **A resolved value.** -/
inductive FlagValue
  | boolean (value : Bool)
  | text (value : String)
  | integer (value : Int)
  | double (value : Binary64)
  | object (value : Json)
  deriving Inhabited, Repr

namespace FlagType

def name : FlagType → String
  | boolean => "boolean"
  | text => "string"
  | integer => "integer"
  | double => "double"
  | object => "object"

def ofName? (s : String) : Option FlagType :=
  [boolean, text, integer, double, object].find? (·.name == s)

end FlagType

namespace FlagValue

def type : FlagValue → FlagType
  | boolean _ => .boolean
  | text _ => .text
  | integer _ => .integer
  | double _ => .double
  | object _ => .object

/-- The value without its type. -/
def toJson : FlagValue → Json
  | boolean b => .bool b
  | text s => .str s
  | integer i => .int i
  | double x => Json.ofDouble x
  | object v => v

/-- A number as an integer: a signed 64-bit integer as it is, any other number as a double cut
toward zero and clamped to the signed 64-bit range. -/
def integerOf (n : Number) : Int :=
  match n.int64? with
  | some i => i
  | none => n.toDouble.toInt64

/-- **A variant in the type asked for.**  Integers and doubles turn into each other; an array counts
as an object. -/
def coerce : FlagType → Json → Option FlagValue
  | .boolean, .bool b => some (boolean b)
  | .text, .str s => some (text s)
  | .integer, .num n => some (integer (integerOf n))
  | .double, .num n => some (double n.toDouble)
  | .object, .obj members => some (object (.obj members))
  | .object, .arr items => some (object (.arr items))
  | _, _ => none

/-- A value taken as one of a type, if it is. -/
def as? (type : FlagType) (v : FlagValue) : Option FlagValue := if v.type = type then some v else none

end FlagValue

end FeatureFlags
