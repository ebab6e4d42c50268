import FeatureFlags.Targeting.Fractional
import FeatureFlags.Targeting.Version

/-!
# Targeting/Operation — the operations that flags add to rules

An operation gets its evaluated arguments and the data in scope, and gives a value unless it breaks off.
`Operations.standard` registers the four that every evaluator has; `register` adds one or replaces the
one of the same name.
-/

namespace FeatureFlags

/-- **An operation**: evaluated arguments, then the data in scope. -/
abbrev Operation := List Json → Json → Except Overflow Json

namespace Operation

/-- Compares two versions by a named relation. -/
def compareVersions : Operation := fun args _ =>
  match args with
  | [.str left, .str relation, .str right] =>
    match Version.parse? left, VersionRelation.ofText? relation, Version.parse? right with
    | some a, some r, some b => .ok (.bool (r.holds a b))
    | _, _, _ => .ok .null
  | _ => .ok .null

/-- Whether the first text begins with the second. -/
def startsWith : Operation := fun args _ =>
  match args with
  | [.str subject, .str part] => .ok (.bool (part.toList.isPrefixOf subject.toList))
  | _ => .ok .null

/-- Whether the first text ends with the second. -/
def endsWith : Operation := fun args _ =>
  match args with
  | [.str subject, .str part] => .ok (.bool (part.toList.isSuffixOf subject.toList))
  | _ => .ok .null

end Operation

/-- **The operations an evaluator knows**, by name. -/
abbrev Operations := KeyMap Operation

namespace Operations

def register (ops : Operations) (name : String) (op : Operation) : Operations := ops.insert name op

def standard : Operations :=
  KeyMap.ofList [("fractional", Fractional.evaluate), ("sem_ver", Operation.compareVersions),
    ("starts_with", Operation.startsWith), ("ends_with", Operation.endsWith)]

end Operations

end FeatureFlags
