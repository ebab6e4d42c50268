import FeatureFlags.Json.Decoding
import FeatureFlags.Metadata

/-!
# Flag — feature flags and their decoding

A flag has a state, named variants, the name of a default variant and possibly a targeting rule.
`Flag.decode` reads it from JSON.  In an object the known fields are visited in the order of their
names and the first fault is reported; in an array the fields stand in the order of
`Flag.fieldOrder`.  An absent rule, a null one and an empty object all mean that the flag has no
rule.
-/

namespace FeatureFlags

inductive FlagState
  | enabled
  | disabled
  deriving DecidableEq, Inhabited, Repr

/-- **A feature flag.** -/
structure Flag where
  state : FlagState
  /-- Empty when the flag declares none. -/
  defaultVariant : String
  variants : KeyMap Json
  /-- The targeting rule. -/
  rule : Option Json
  metadata : Metadata
  deriving Inhabited

namespace Flag

def isEnabled (f : Flag) : Bool := f.state == .enabled

/-- The value of a variant. -/
def variant? (f : Flag) (name : String) : Option Json := f.variants.get? name

/-- A flag without variants, rule and metadata. -/
def bare (state : FlagState) (defaultVariant : String) : Flag :=
  ⟨state, defaultVariant, ∅, none, ∅⟩

/-- The rule that a targeting entry stands for. -/
def ruleOf : Option Json → Option Json
  | none => none
  | some .null => none
  | some (.obj []) => none
  | some v => some v

/-- Equality of definitions. -/
protected def beq (f g : Flag) : Bool :=
  f.state == g.state && f.defaultVariant == g.defaultVariant && f.variants == g.variants &&
    f.rule == g.rule && f.metadata == g.metadata

instance : BEq Flag := ⟨Flag.beq⟩

end Flag

/-! ## Decoding -/

namespace FlagState

def names : List String := ["ENABLED", "DISABLED"]

def ofName (name : String) : Except DecodeError FlagState :=
  if name = "ENABLED" then .ok .enabled
  else if name = "DISABLED" then .ok .disabled
  else .error (.choice name names)

/-- A state is its name, or an object with that name as its only key and null under it. -/
def decode : Json → Except DecodeError FlagState
  | .str name => ofName name
  | .obj [(name, content)] => do
    let state ← ofName name
    match content with
    | .null => pure state
    | v => throw (.kind v .unit)
  | .obj _ => .error .notSingle
  | v => .error (.kind v .textOrMap)

end FlagState

namespace Metadata

/-- The metadata of a flag: an object whose entries are all scalars. -/
def decode : Json → Except DecodeError Metadata
  | .obj members => do
    let entries ← members.mapM fun (key, v) =>
      match Scalar.decode? v with
      | some s => .ok (key, s)
      | none => .error .notScalar
    pure (KeyMap.ofList entries)
  | v => .error (.kind v .map)

end Metadata

namespace Flag

/-- What a decoder found in the fields of a flag. -/
structure Fields where
  state : Option FlagState
  defaultVariant : Option (Option String)
  variants : Option (KeyMap Json)
  targeting : Option Json
  metadata : Option Metadata

/-- The flag of its fields; all but the state may be absent. -/
def Fields.flag? (fields : Fields) : Option Flag :=
  fields.state.map fun state => {
    state
    defaultVariant := (fields.defaultVariant.getD none).getD ""
    variants := fields.variants.getD ∅
    rule := ruleOf fields.targeting
    metadata := fields.metadata.getD ∅ }

/-- Fields by name. -/
def decodeMembers (members : List (String × Json)) : Except DecodeError Flag := do
  let at? (name : String) : Option Json := valueAt? name members
  let defaultVariant ← Json.decodeField Json.decodeOptionalText (at? "defaultVariant")
  let metadata ← Json.decodeField Metadata.decode (at? "metadata")
  let state ← Json.decodeField FlagState.decode (at? "state")
  let variants ← Json.decodeField Json.decodeMap (at? "variants")
  match Fields.flag? ⟨state, defaultVariant, variants, at? "targeting", metadata⟩ with
  | some flag => pure flag
  | none => throw (.missing "state")

/-- The order in which an array holds the fields. -/
def fieldOrder : List String := ["state", "defaultVariant", "variants", "targeting", "metadata"]

/-- Fields by position; those after the last item are absent. -/
def decodeItems (items : List Json) : Except DecodeError Flag := do
  let state ← Json.decodeField FlagState.decode items[0]?
  let defaultVariant ← Json.decodeField Json.decodeOptionalText items[1]?
  let variants ← Json.decodeField Json.decodeMap items[2]?
  let metadata ← Json.decodeField Metadata.decode items[4]?
  match Fields.flag? ⟨state, defaultVariant, variants, items[3]?, metadata⟩ with
  | none => throw (.tooShort items.length "FeatureFlag" fieldOrder.length)
  | some flag =>
    if fieldOrder.length < items.length then throw (.tooLong items.length) else pure flag

/-- **Reads a flag.** -/
def decode : Json → Except DecodeError Flag
  | .obj members => decodeMembers members
  | .arr items => decodeItems items
  | v => .error (.kind v (.record "FeatureFlag"))

end Flag

end FeatureFlags
