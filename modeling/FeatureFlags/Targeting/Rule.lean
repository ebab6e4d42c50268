import FeatureFlags.Json.Basic

/-!
# Targeting/Rule — targeting rules

A rule is a JSON value in which an object with one key applies the operator of that name to its
arguments.  `Rule` is the tree of such a value: literals, lists, and operators over rules.
-/

namespace FeatureFlags

/-- Which of two values may come first. -/
inductive Order
  | less
  | atMost
  | greater
  | atLeast
  deriving DecidableEq, Inhabited, Repr

/-- The operations of arithmetic. -/
inductive Arithmetic
  | add
  | subtract
  | multiply
  | divide
  | remainder
  deriving DecidableEq, Inhabited, Repr

/-- The operators that test the items of a list. -/
inductive Quantifier
  | all
  | some
  | none
  deriving DecidableEq, Inhabited, Repr

/-- **The operators of the rule language.** -/
inductive Operator
  | lookup
  | missing
  | missingSome
  | conditional
  | ternary
  | conjunction
  | disjunction
  | negation
  | truth
  | looseEqual
  | looseUnequal
  | strictEqual
  | strictUnequal
  | ordered (order : Order)
  | arithmetic (operation : Arithmetic)
  | least
  | greatest
  | concatenate
  | substring
  | membership
  | startsWith
  | endsWith
  | merge
  | map
  | filter
  | reduce
  | quantified (quantifier : Quantifier)
  deriving DecidableEq, Inhabited, Repr

namespace Operator

/-- The operators by their names. -/
def table : List (String × Operator) := [
  ("var", lookup), ("missing", missing), ("missing_some", missingSome),
  ("if", conditional), ("?:", ternary), ("and", conjunction), ("or", disjunction),
  ("!", negation), ("!!", truth),
  ("==", looseEqual), ("!=", looseUnequal), ("===", strictEqual), ("!==", strictUnequal),
  ("<", ordered .less), ("<=", ordered .atMost), (">", ordered .greater), (">=", ordered .atLeast),
  ("+", arithmetic .add), ("-", arithmetic .subtract), ("*", arithmetic .multiply),
  ("/", arithmetic .divide), ("%", arithmetic .remainder),
  ("min", least), ("max", greatest),
  ("cat", concatenate), ("substr", substring), ("in", membership),
  ("starts_with", startsWith), ("ends_with", endsWith), ("merge", merge),
  ("map", map), ("filter", filter), ("reduce", reduce),
  ("all", quantified .all), ("some", quantified .some), ("none", quantified .none)]

def ofName? (name : String) : Option Operator := table.lookup name

/-- The operator is left for the evaluation even over literals: it looks at the data by itself, goes
through a list, or puts a row of values together as a list or by its extremes. -/
def isLate : Operator → Bool
  | lookup | missing | missingSome => true
  | map | filter | reduce | quantified _ => true
  | merge | least | greatest => true
  | _ => false

/-- The operator needs its arguments in a list. -/
def needsList : Operator → Bool
  | conditional | conjunction | disjunction => true
  | _ => false

end Operator

/-- **A targeting rule.** -/
inductive Rule
  | literal (value : Json)
  | list (items : List Rule)
  | apply (operator : Operator) (args : List Rule)
  /-- An operator that needs a list and has none. -/
  | unlisted
  /-- An operation by name, which may or may not be registered. -/
  | call (name : String) (args : List Rule)
  deriving Inhabited, Repr

namespace Rule

def literal? : Rule → Option Json
  | literal v => some v
  | _ => none

def isLiteral (r : Rule) : Bool := r.literal?.isSome

/-- The text of a text or number that is written out. -/
def text? : Rule → Option String
  | literal (.str s) => some s
  | literal (.num n) => some (String.ofList n.text)
  | _ => none

/-- The rule is written as a list. -/
def isListed : Rule → Bool
  | literal (.arr _) => true
  | list _ => true
  | _ => false

mutual

/-- **The rule is static**: no operator in it is left for the evaluation, and none is called by name.
Its value, if it has one, is the same in every scope. -/
def isStatic : Rule → Bool
  | literal _ => true
  | list items => areStatic items
  | apply operator args => !operator.isLate && areStatic args
  | unlisted => true
  | call _ _ => false

/-- All the rules are static. -/
def areStatic : List Rule → Bool
  | [] => true
  | r :: rest => r.isStatic && areStatic rest

end

end Rule

/-- **A sum that does not fit** where it is kept.  It is no error that anybody could be told: whatever
was asked for breaks off at it, without an answer. -/
inductive Overflow
  /-- The weights of a split go beyond 64 bits. -/
  | weights
  deriving DecidableEq, Inhabited, Repr

/-- **Why a rule has no result.** -/
inductive RuleError
  | unknownOperator (name : String)
  /-- Arguments of the wrong number or kind. -/
  | badArguments
  /-- Two values that cannot be compared for equality. -/
  | incomparable
  /-- A value that is not a number where one is needed. -/
  | notNumber
  /-- An operation broke off. -/
  | overflow (cause : Overflow)
  deriving DecidableEq, Inhabited, Repr

namespace RuleError

def message : RuleError → String
  | unknownOperator name => "unknown operator `" ++ name ++ "`"
  | badArguments => "rule evaluation failed: Invalid arguments: Invalid Arguments"
  | incomparable => "rule evaluation failed: Invalid arguments: NaN"
  | notNumber => "rule evaluation failed: Thrown: \x7b\"type\":\"NaN\"\x7d"
  | overflow .weights => "attempt to add with overflow"

end RuleError

/-- What a rule gives. -/
abbrev RuleResult := Except RuleError Json

end FeatureFlags
