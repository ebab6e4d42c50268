import FeatureFlags.Json.Decoding

/-!
# Evaluation/Context — what a caller says about the subject of an evaluation

A context has attributes and, apart from them, an optional targeting key.  `overlay` puts one
context over another; `toObject` is the object that rules see, in which the targeting key stands
among the attributes.
-/

namespace FeatureFlags

/-- **The attributes of a subject.** -/
structure Context where
  targetingKey : Option String
  attributes : KeyMap Json
  deriving Inhabited

namespace Context

/-- The name under which rules see the targeting key. -/
def targetingKeyName : String := "targetingKey"

def empty : Context := ⟨none, ∅⟩

instance : EmptyCollection Context := ⟨empty⟩

def isEmpty (c : Context) : Bool := c.targetingKey.isNone && c.attributes.isEmpty

/-- **Puts a context over another**: what `upper` says stands. -/
def overlay (base upper : Context) : Context where
  targetingKey := upper.targetingKey <|> base.targetingKey
  attributes := base.attributes.overlay upper.attributes

/-- **The object that rules see.** -/
def toObject (c : Context) : KeyMap Json :=
  match c.targetingKey with
  | some key => c.attributes.insert targetingKeyName (.str key)
  | none => c.attributes

def decodeMembers (members : List (String × Json)) : Except DecodeError Context := do
  let attributes ← Json.decodeField Json.decodeMap (valueAt? "attributes" members)
  let key ← Json.decodeField Json.decodeOptionalText (valueAt? "targetingKey" members)
  pure ⟨key.getD none, attributes.getD ∅⟩

def decodeItems (items : List Json) : Except DecodeError Context := do
  let key ← Json.decodeField Json.decodeOptionalText items[0]?
  let attributes ← Json.decodeField Json.decodeMap items[1]?
  match key with
  | none => throw (.tooShort items.length "EvaluationContext" 2)
  | some key =>
    if 2 < items.length then throw (.tooLong items.length) else pure ⟨key, attributes.getD ∅⟩

/-- **Reads a context**: from an object by name, from an array the targeting key first. -/
def decode : Json → Except DecodeError Context
  | .obj members => decodeMembers members
  | .arr items => decodeItems items
  | v => .error (.kind v (.record "EvaluationContext"))

end Context

end FeatureFlags
