import FeatureFlags.Targeting.Outcome
import FeatureFlags.Targeting.Simplified

/-!
# Targeting/Evaluation — evaluating a rule for a flag

The data of an evaluation are the caller's attributes with one reserved member, which tells the key
of the flag and the time.  A rule that gives null has no result.
-/

namespace FeatureFlags

namespace Targeting

/-- The reserved member of the data. -/
def propertiesKey : String := "$flagd"

/-- What the reserved member holds: the flag and the time in seconds. -/
def properties (flagKey : String) (time : Int) : Json :=
  .obj [("flagKey", .str flagKey), ("timestamp", .int time)]

/-- **The data a rule is evaluated on.** -/
def data (flagKey : String) (time : Int) (attributes : KeyMap Json) : Json :=
  .ofMap (attributes.insert propertiesKey (properties flagKey time))

/-- **Evaluates a rule**; null is no result. -/
def evaluate (ops : Operations) (flagKey : String) (time : Int) (rule : Json)
    (attributes : KeyMap Json) : Except RuleError (Option Json) := do
  let compiled ← Rule.ofJson rule
  match ← compiled.meaning ops (.item (data flagKey time attributes)) with
  | .null => pure none
  | v => pure (some v)

end Targeting

end FeatureFlags
