import FeatureFlags.Json.Basic
import FeatureFlags.Text.Quoted

/-!
# Json/Decoding — what can be wrong with a value that is read as a record

A record is read from an object by the names of its fields, or from an array by their order.
`DecodeError` lists the faults and `DecodeError.message` words them.
-/

namespace FeatureFlags

/-- What a decoder needed where it found something else. -/
inductive Expectation
  | text
  | map
  | unit
  | textOrMap
  | record (name : String)
  deriving DecidableEq, Inhabited, Repr

namespace Expectation

def message : Expectation → String
  | text => "a string"
  | map => "a map"
  | unit => "unit"
  | textOrMap => "string or map"
  | record name => "struct " ++ name

end Expectation

/-- **A fault found while decoding.** -/
inductive DecodeError
  /-- A value of the wrong kind. -/
  | kind (found : Json) (expected : Expectation)
  /-- A field that must be present is not. -/
  | missing (field : String)
  /-- A name that is not one of the choices. -/
  | choice (name : String) (choices : List String)
  /-- A choice written as an object that has not exactly one member. -/
  | notSingle
  /-- A metadata entry that is no scalar. -/
  | notScalar
  /-- An array too short for the record that has `fields` fields. -/
  | tooShort (length : Nat) (record : String) (fields : Nat)
  /-- An array longer than the record. -/
  | tooLong (length : Nat)
  deriving Inhabited, Repr

namespace DecodeError

/-- The kind of a value, with the value itself where it is short. -/
def describe : Json → String
  | .null => "null"
  | .bool true => "boolean `true`"
  | .bool false => "boolean `false`"
  | .num (.int i) => "integer `" ++ toString i ++ "`"
  | .num (.double x) => "floating point `" ++ String.ofList x.jsonText ++ "`"
  | .str s => "string " ++ Quoted.quote s
  | .arr _ => "sequence"
  | .obj _ => "map"

/-- The choices, each between backquotes. -/
def listed (choices : List String) : String :=
  " or ".intercalate (choices.map fun c => "`" ++ c ++ "`")

/-- **The wording of a fault.** -/
def message : DecodeError → String
  | kind found expected => "invalid type: " ++ describe found ++ ", expected " ++ expected.message
  | missing field => "missing field `" ++ field ++ "`"
  | choice name choices => "unknown variant `" ++ name ++ "`, expected " ++ listed choices
  | notSingle => "invalid value: map, expected map with a single key"
  | notScalar => "data did not match any variant of untagged enum MetadataValue"
  | tooShort length record fields =>
    "invalid length " ++ toString length ++ ", expected struct " ++ record ++ " with " ++
      toString fields ++ " elements"
  | tooLong length => "invalid length " ++ toString length ++ ", expected fewer elements in array"

end DecodeError

namespace Json

/-- The value read as a text. -/
def decodeText : Json → Except DecodeError String
  | str s => .ok s
  | v => .error (.kind v .text)

/-- The value read as an optional text: null is none. -/
def decodeOptionalText : Json → Except DecodeError (Option String)
  | null => .ok none
  | v => v.decodeText.map some

/-- The value read as a map of arbitrary values. -/
def decodeMap : Json → Except DecodeError (KeyMap Json)
  | obj members => .ok (KeyMap.ofList members)
  | v => .error (.kind v .map)

/-- Applies a decoder to a field that may be absent. -/
def decodeField {α : Type} (decode : Json → Except DecodeError α) :
    Option Json → Except DecodeError (Option α)
  | none => .ok none
  | some v => (decode v).map some

end Json

end FeatureFlags
