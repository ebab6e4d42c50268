import FeatureFlags.Targeting.Meaning

/-!
# Targeting/Simplified — rules from JSON, simplified as they are built

`Rule.ofJson` reads a rule.  What is static is evaluated at once, and left as it is when that fails;
conditions that are settled disappear; a conjunction or disjunction drops the literals that cannot
decide it, and gives way to one that does.  An object with several keys is no operator, and refused
wherever it stands.
-/

namespace FeatureFlags

namespace Rule

/-- The name under which an object with several keys is refused. -/
def manyKeys : RuleError := .unknownOperator "Unknown Operator"

/-- The values of rules that are all literals. -/
def literals? (rules : List Rule) : Option (List Json) := rules.mapM literal?

/-! ## Simplification -/

/-- A text that reads as a number becomes the number. -/
def numeral : Rule → Rule
  | literal (.str s) =>
    match Operand.ofText? s with
    | some (.int i) => literal (.int i)
    | some (.double x) => if x.isFinite then literal (.num (.double x)) else literal (.str s)
    | none => literal (.str s)
  | r => r

/-- The value of a static operator, when it has one. -/
def fold? (operator : Operator) (args : List Rule) : Option Json :=
  if !(apply operator args).isStatic then none
  else ((apply operator args).meaning ∅ (.item .null)).toOption

/-- A literal whose truth decides a junction. -/
def isDecisive (decisive : Bool) (r : Rule) : Bool :=
  match r.literal? with
  | some v => v.isTrue == decisive
  | none => false

/-- **A conjunction or disjunction**: a deciding literal stands for it, the other literals are
dropped, and one operand stands alone. -/
def junction (operator : Operator) (decisive : Bool) (args : List Rule) : Rule :=
  match args.find? (isDecisive decisive) with
  | some r => r
  | none =>
    match args.filter fun r => !r.isLiteral with
    | [] => args.getLast?.getD (literal .null)
    | [r] => r
    | undecided => apply operator undecided

/-- **Conditions** up to the first one that is open. -/
def settle : List Rule → Rule
  | [] => literal .null
  | [r] => r
  | condition :: consequence :: rest =>
    match condition.literal? with
    | some v => if v.isTrue then consequence else settle rest
    | none => apply .conditional (condition :: consequence :: rest)

/-- A choice whose condition is settled. -/
def choose : List Rule → Rule
  | condition :: consequence :: alternative :: rest =>
    match condition.literal? with
    | some v => if v.isTrue then consequence else alternative
    | none => apply .ternary (condition :: consequence :: alternative :: rest)
  | args => apply .ternary args

/-- A sum or product of static rules and others: two static ones or more are put together first. -/
def gather (op : Arithmetic) (args : List Rule) : Rule :=
  let known := args.filter isStatic
  if 2 ≤ known.length then
    match fold? (.arithmetic op) known with
    | some v => apply (.arithmetic op) (literal v :: args.filter fun r => !r.isStatic)
    | none => apply (.arithmetic op) args
  else apply (.arithmetic op) args

/-- **An operator over simplified arguments.** -/
def simplified (operator : Operator) (args : List Rule) : Rule :=
  match operator with
  | .arithmetic op =>
    let args := args.map numeral
    match fold? operator args with
    | some v => literal v
    | none =>
      match op with
      | .add | .multiply => if areStatic args then apply operator args else gather op args
      | _ => apply operator args
  | _ =>
    match fold? operator args with
    | some v => literal v
    | none =>
      match operator with
      | .conjunction => junction operator false args
      | .disjunction => junction operator true args
      | .conditional => settle args
      | .ternary => choose args
      | _ => apply operator args

/-! ## Reading -/

/-- A list is a literal when its items are. -/
def ofItems (items : List Rule) : Rule :=
  match literals? items with
  | some vs => literal (.arr vs)
  | none => list items

/-- The items of a rule that was written as a list. -/
def items : Rule → List Rule
  | literal (.arr vs) => vs.map literal
  | list rules => rules
  | r => [r]

def isArray : Json → Bool
  | .arr _ => true
  | _ => false

/-- An operator by name; an argument that is no list is the only one. -/
def ofMember (name : String) (argument : Json) (rule : Rule) : Rule :=
  let args := if isArray argument then rule.items else [rule]
  match Operator.ofName? name with
  | none => call name args
  | some operator =>
    if operator.needsList && !isArray argument then unlisted else simplified operator args

mutual

/-- **Reads a rule.** -/
def ofJson : Json → Except RuleError Rule
  | .arr vs => (rulesOf vs).map ofItems
  | .obj members => do
    match ← membersOf members with
    | [] => pure (literal (.obj []))
    | [rule] => pure rule
    | _ => throw manyKeys
  | v => .ok (literal v)

def rulesOf : List Json → Except RuleError (List Rule)
  | [] => .ok []
  | v :: rest => do pure ((← ofJson v) :: (← rulesOf rest))

/-- Each member as an operator application. -/
def membersOf : List (String × Json) → Except RuleError (List Rule)
  | [] => .ok []
  | (name, v) :: rest => do pure (ofMember name v (← ofJson v) :: (← membersOf rest))

end

end Rule

end FeatureFlags
