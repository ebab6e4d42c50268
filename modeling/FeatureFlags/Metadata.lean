import FeatureFlags.Json.Basic

/-!
# Metadata — scalar annotations of flags and flag sets

A metadata value is a boolean, a signed 64-bit integer, a double or a text; null, arrays and objects
have no metadata form.  Two readings are given: `Scalar.ofJson?` decides by the kind of the JSON
value, `Scalar.decode?` tries the four forms in turn and takes the first that fits.
-/

namespace FeatureFlags

/-- **A metadata value.** -/
inductive Scalar
  | boolean (value : Bool)
  | integer (value : Int)
  | double (value : Binary64)
  | text (value : String)
  deriving DecidableEq, Inhabited, Repr

/-- Annotations by name. -/
abbrev Metadata := KeyMap Scalar

namespace Scalar

/-- The metadata form of a number: an integer within 64 signed bits stays one, any other number is
the double nearest to it. -/
def ofNumber (n : Number) : Scalar :=
  match n.int64? with
  | some i => integer i
  | none => double n.toDouble

/-- **The metadata form of a JSON value**, if it has one. -/
def ofJson? : Json → Option Scalar
  | .bool b => some (boolean b)
  | .num n => some (ofNumber n)
  | .str s => some (text s)
  | _ => none

/-! ### Trying the forms in turn -/

def boolean? : Json → Option Scalar
  | .bool b => some (boolean b)
  | _ => none

def integer? : Json → Option Scalar
  | .num n => n.int64?.map integer
  | _ => none

def double? : Json → Option Scalar
  | .num n => some (double n.toDouble)
  | _ => none

def text? : Json → Option Scalar
  | .str s => some (text s)
  | _ => none

/-- **The first of the four forms that fits**: boolean, integer, double, text. -/
def decode? (v : Json) : Option Scalar :=
  [boolean?, integer?, double?, text?].findSome? fun form => form v

/-! ### Writing -/

def toJson : Scalar → Json
  | boolean b => .bool b
  | integer i => .int i
  | double x => Json.ofDouble x
  | text s => .str s

/-- The value for a reader. -/
def display : Scalar → String
  | boolean true => "true"
  | boolean false => "false"
  | integer i => toString i
  | double x => x.plainText
  | text s => s

/-- Equality of values; doubles are equal by value. -/
protected def beq : Scalar → Scalar → Bool
  | boolean a, boolean b => a == b
  | integer a, integer b => a == b
  | double a, double b => a.eq b
  | text a, text b => a == b
  | _, _ => false

instance : BEq Scalar := ⟨Scalar.beq⟩

end Scalar

namespace Metadata

/-- The entries of an object that have a metadata form. -/
def ofMembers (members : List (String × Json)) : Metadata :=
  (KeyMap.ofList members).filterMap fun _ v => Scalar.ofJson? v

end Metadata

end FeatureFlags
