import FeatureFlags.Targeting.Lookup

/-!
# Targeting/Scope — the data that a rule sees

At the top a rule sees the data of the evaluation; inside an operator that goes through a list it
sees the item instead, and nothing else; inside a reduction it sees the item too, and by name the
item and what has been accumulated.
-/

namespace FeatureFlags

/-- **What a rule sees.** -/
inductive Scope
  | item (data : Json)
  | reduction (accumulator current : Json)
  deriving Inhabited, Repr

namespace Scope

/-- All the data in scope. -/
def data : Scope → Json
  | item v => v
  | reduction _ current => current

/-- The value that a path reaches from a named start; only a reduction has names. -/
def named? (s : Scope) (p : Path) : Option Json :=
  match s, p.start with
  | reduction accumulator _, .accumulator => accumulator.follow? p.segments
  | reduction _ current, .current => current.follow? p.segments
  | _, _ => none

/-- **The value of a variable**, if there is one: by name, else in the data. -/
def value? (s : Scope) (p : Path) : Option Json := s.named? p <|> s.data.follow? p.inData

/-- The value of a variable whose path is only known as a text; in the data every dot of it
counts. -/
def valueOfText? (s : Scope) (text : String) : Option Json :=
  s.named? (Path.ofText text) <|> s.data.lookup? text

/-! ## Missing variables -/

/-- A path that is spelled out: a text. -/
def paths : Json → List String
  | .str path => [path]
  | .arr items => items.filterMap Json.string?
  | _ => []

/-- The path leads nowhere in the data; names do not count. -/
def isMissing (s : Scope) (path : String) : Bool := (s.data.lookup? path).isNone

/-- **The paths that lead nowhere**, in the order given. -/
def missing (s : Scope) (args : List Json) : Json :=
  .arr (((args.flatMap paths).filter s.isMissing).map .str)

/-- How many paths must be there: one, unless a whole number says otherwise. -/
def required : Json → Nat
  | .num n => n.uint64?.getD 1
  | _ => 1

/-- **The paths that lead nowhere, unless enough of them lead somewhere.** -/
def missingSome (s : Scope) (needed : Json) : Json → Json
  | .arr items =>
    let paths := items.filterMap Json.string?
    let absent := paths.filter s.isMissing
    if required needed ≤ paths.length - absent.length then .arr [] else .arr (absent.map .str)
  | _ => .arr []

end Scope

end FeatureFlags
