import FeatureFlags.Targeting.Operation
import FeatureFlags.Targeting.Scope
import FeatureFlags.Targeting.ShortForm
import FeatureFlags.Targeting.Texts

/-!
# Targeting/Meaning — what rules mean

The meaning of a rule is a function of the scope.  `Operator.meaning` gives the meaning of an
operator from its arguments, `Rule.meaning` that of a whole rule: so an operator decides which of
its arguments are evaluated, in which order, how often, and in which scope.
-/

namespace FeatureFlags

/-- **What a rule gives in a scope.** -/
abbrev Meaning := Scope → RuleResult

/-- An argument of an operator: the rule and its meaning. -/
structure Argument where
  rule : Rule
  meaning : Meaning

namespace Argument

/-- The values of all arguments. -/
def values (args : List Argument) (s : Scope) : Except RuleError (List Json) :=
  args.mapM fun a => a.meaning s

/-- An argument that is a value. -/
def constant (v : Json) : Argument := ⟨.literal v, fun _ => .ok v⟩

end Argument

/-! ## Operators -/

namespace Operator

/-- The value of the variable whose path is a value: a text or a number, or else all the data. -/
def valueAtPath? (s : Scope) : Json → Option Json
  | .str text => s.valueOfText? text
  | .num n => s.valueOfText? (String.ofList n.text)
  | _ => some s.data

/-- **A variable**: its path and possibly a default for when it leads nowhere. -/
def lookupMeaning : List Argument → Meaning
  | [] => fun s => .ok s.data
  | a :: rest => fun s => do
    let found ← match a.rule.text? with
      | some text => pure (s.value? (Path.ofText text))
      | none => do pure (valueAtPath? s (← a.meaning s))
    match found, rest with
    | some v, _ => pure v
    | none, d :: _ => d.meaning s
    | none, [] => pure .null

/-- Conditions with their consequences, then possibly an alternative. -/
def conditionalMeaning : List Argument → Meaning
  | [] => fun _ => .ok .null
  | [a] => a.meaning
  | condition :: consequence :: rest => fun s => do
    if (← condition.meaning s).isTrue then consequence.meaning s
    else conditionalMeaning rest s

def ternaryMeaning : List Argument → Meaning
  | condition :: consequence :: alternative :: _ => fun s => do
    if (← condition.meaning s).isTrue then consequence.meaning s else alternative.meaning s
  | _ => fun _ => .ok .null

/-- The first value whose truth is `decisive`, else the last one. -/
def junctionMeaning (decisive : Bool) : List Argument → Meaning
  | [] => fun _ => .ok .null
  | [a] => a.meaning
  | a :: rest => fun s => do
    let v ← a.meaning s
    if v.isTrue == decisive then pure v else junctionMeaning decisive rest s

/-- The truth of the first argument, or its opposite. -/
def truthMeaning (positive : Bool) : List Argument → Meaning
  | [] => fun _ => .ok (.bool !positive)
  | a :: _ => fun s => do pure (.bool ((← a.meaning s).isTrue == positive))

/-- Every further value stands to the first as the test says; the first failure decides. -/
def eachWithFirst (test : Json → Json → Except RuleError Bool) (first : Json) :
    List Argument → Meaning
  | [] => fun _ => .ok (.bool true)
  | a :: rest => fun s => do
    if ← test first (← a.meaning s) then eachWithFirst test first rest s else pure (.bool false)

def equalMeaning (test : Json → Json → Except RuleError Bool) : List Argument → Meaning
  | a :: b :: rest => fun s => do eachWithFirst test (← a.meaning s) (b :: rest) s
  | _ => fun _ => .error .badArguments

/-- An operator on the values of two arguments; with fewer it gives `otherwise` at once, and what
comes after them is not evaluated. -/
def onTwo (otherwise : RuleResult) (f : Json → Json → RuleResult) : List Argument → Meaning
  | a :: b :: _ => fun s => do f (← a.meaning s) (← b.meaning s)
  | _ => fun _ => otherwise

def unequalMeaning (test : Json → Json → Except RuleError Bool) : List Argument → Meaning :=
  onTwo (.error .badArguments) fun left right => do pure (.bool !(← test left right))

/-- Each value stands to the next as the order says; the first failure decides. -/
def chain (order : Order) (previous : Json) : List Argument → Meaning
  | [] => fun _ => .ok (.bool true)
  | a :: rest => fun s => do
    let next ← a.meaning s
    if ← order.holds previous next then chain order next rest s else pure (.bool false)

def orderedMeaning (order : Order) : List Argument → Meaning
  | a :: b :: rest => fun s => do chain order (← a.meaning s) (b :: rest) s
  | _ => fun _ => .error .badArguments

/-- Strict equality as a test that never fails. -/
def strictly (a b : Json) : Except RuleError Bool := .ok (a == b)

/-- A longer row under an operation: each value is evaluated and put to the others before the next
one is. -/
def rowMeaning (op : Arithmetic) (acc : Option Operand) : List Argument → Meaning
  | [] => fun _ => .ok ((acc.map Operand.result).getD .null)
  | a :: rest => fun s => do
    match Operand.ofJson? (← a.meaning s) with
    | some b => do rowMeaning op (some (← op.extend acc b)) rest s
    | none => op.withoutOperand acc

/-- **Arithmetic**; a sum refuses a list that is written out. -/
def arithmeticMeaning (op : Arithmetic) : List Argument → Meaning
  | [] => fun _ => op.ofNothing
  | [a] => fun s =>
    if op = .add ∧ a.rule.isListed then .error .notNumber else do op.ofOne (← a.meaning s)
  | [a, b] => onTwo (.error .badArguments) op.ofTwo [a, b]
  | a :: b :: rest => rowMeaning op none (a :: b :: rest)

/-- Each value is evaluated and compared with the best so far before the next one is; there must be
one, and all must be numbers. -/
def bestMeaning (beats : Binary64 → Binary64 → Bool) (best : Option (Json × Binary64)) :
    List Argument → Meaning
  | [] => fun _ =>
    match best with
    | some (v, _) => .ok v
    | none => .error .badArguments
  | a :: rest => fun s => do
    let v ← a.meaning s
    match Extreme.number? v with
    | some x => bestMeaning beats (some (Extreme.better beats best (v, x))) rest s
    | none => throw .badArguments

/-- **The first extreme of a row of numbers**, kept as it is; the numbers may come as one list, but
not as one that is written out. -/
def extremeMeaning (beats : Binary64 → Binary64 → Bool) : List Argument → Meaning
  | [a] => fun s =>
    if a.rule.isListed then .error .badArguments
    else do
      let row := match ← a.meaning s with
        | .arr items => items
        | v => [v]
      bestMeaning beats none (row.map Argument.constant) s
  | args => bestMeaning beats none args

/-- An operator on the values of its arguments. -/
def onValues (f : List Json → RuleResult) (args : List Argument) : Meaning := fun s => do
  f (← Argument.values args s)

/-! ### Loops -/

/-- The body of a loop at an item. -/
def atItem (body : Argument) (item : Json) : RuleResult := body.meaning (.item item)

/-- The items of a list, or the values of an object in the order of the keys. -/
def itemsOf? : Json → Option (List Json)
  | .arr items => some items
  | .obj members => some (members.map (·.2))
  | _ => none

def mapMeaning : List Argument → Meaning
  | [collection, body] => fun s => do
    match ← collection.meaning s, ItemOperation.ofRule? body.rule with
    | .null, _ => pure (.arr [])
    | .arr items, some operation => pure (.arr (items.map operation.onItem))
    | v, _ => do pure (.arr (← ((itemsOf? v).getD [v]).mapM (atItem body)))
  | _ => fun _ => .error .badArguments

/-- The body holds at an item of a list. -/
def testItem (body : Argument) (item : Json) : Except RuleError Bool :=
  match ItemTest.ofRule? body.rule with
  | some test => .ok (test.holds item)
  | none => (atItem body item).map Json.isTrue

def filterMeaning : List Argument → Meaning
  | [collection, body] => fun s => do
    match ← collection.meaning s with
    | .null => pure (.arr [])
    | .arr items => do pure (.arr (← items.filterM (testItem body)))
    | .obj members => do
      pure (.obj (← members.filterM fun e => (atItem body e.2).map Json.isTrue))
    | _ => throw .badArguments
  | _ => fun _ => .error .badArguments

/-- Whether some item passes; the first that does decides. -/
def anyItem (test : Json → Except RuleError Bool) : List Json → Except RuleError Bool
  | [] => .ok false
  | item :: rest => do if ← test item then pure true else anyItem test rest

/-- **All, some or none of the items pass.** -/
def quantify (q : Quantifier) (test : Json → Except RuleError Bool) (items : List Json) :
    Except RuleError Bool :=
  match q with
  | .all =>
    if items.isEmpty then .ok false
    else (anyItem (fun item => (test item).map not) items).map not
  | .some => anyItem test items
  | .none => (anyItem test items).map not

def quantifiedMeaning (q : Quantifier) : List Argument → Meaning
  | [collection, body] => fun s => do
    match ← collection.meaning s with
    | .null => pure (.bool (q == .none))
    | .arr items => (quantify q (testItem body) items).map .bool
    | _ => throw .badArguments
  | _ => fun _ => .error .badArguments

/-- The body of a reduction, item after item. -/
def reduceItems (body : Argument) (accumulator : Json) : List Json → RuleResult
  | [] => .ok accumulator
  | item :: rest => do reduceItems body (← body.meaning (.reduction accumulator item)) rest

def reduceMeaning : List Argument → Meaning
  | [collection, body, initial] => fun s => do
    let v ← collection.meaning s
    let first ← initial.meaning s
    match v with
    | .null => pure first
    | .arr items =>
      match body.rule.reductionOperation?, first, Rule.numbers? items with
      | some op, .num n, some numbers =>
        if items.isEmpty then pure first else pure (Rule.reduceNumbers op n numbers)
      | _, _, _ => reduceItems body first items
    | _ => throw .badArguments
  | _ => fun _ => .error .badArguments

/-- **The meaning of an operator.** -/
def meaning : Operator → List Argument → Meaning
  | lookup, args => lookupMeaning args
  | missing, args => fun s => do pure (s.missing (← Argument.values args s))
  | missingSome, args => fun s =>
    onTwo (.ok (.arr [])) (fun needed paths => .ok (s.missingSome needed paths)) args s
  | conditional, args => conditionalMeaning args
  | ternary, args => ternaryMeaning args
  | conjunction, args => junctionMeaning false args
  | disjunction, args => junctionMeaning true args
  | negation, args => truthMeaning false args
  | truth, args => truthMeaning true args
  | looseEqual, args => equalMeaning Json.looselyEqual args
  | looseUnequal, args => unequalMeaning Json.looselyEqual args
  | strictEqual, args => equalMeaning strictly args
  | strictUnequal, args => unequalMeaning strictly args
  | ordered order, args => orderedMeaning order args
  | arithmetic op, args => arithmeticMeaning op args
  | least, args => extremeMeaning Binary64.lt args
  | greatest, args => extremeMeaning (fun x y => y.lt x) args
  | concatenate, args => onValues (fun vs => .ok (Texts.concatenate vs)) args
  | substring, args => onValues (fun vs => .ok (Texts.substring vs)) (args.take 3)
  | membership, args =>
    onTwo (.ok (.bool false)) (fun part whole => .ok (Texts.membership part whole)) args
  | startsWith, args =>
    onTwo (.error .badArguments) (fun whole part => .ok (Texts.startsWith whole part)) args
  | endsWith, args =>
    onTwo (.error .badArguments) (fun whole part => .ok (Texts.endsWith whole part)) args
  | merge, args => onValues (fun vs => .ok (Texts.merge vs)) args
  | map, args => mapMeaning args
  | filter, args => filterMeaning args
  | reduce, args => reduceMeaning args
  | quantified q, args => quantifiedMeaning q args

end Operator

/-! ## Rules -/

namespace Rule

/-- A registered operation gets the values of its arguments and all the data in scope; if it breaks off,
so does the rule. -/
def callMeaning (ops : Operations) (name : String) (args : List Argument) : Meaning := fun s =>
  match ops.get? name with
  | none => .error (.unknownOperator name)
  | some op => do (op (← Argument.values args s) s.data).mapError .overflow

mutual

/-- **The meaning of a rule.** -/
def meaning (ops : Operations) : Rule → Meaning
  | literal v => fun _ => .ok v
  | list items => Operator.onValues (fun vs => .ok (.arr vs)) (arguments ops items)
  | apply operator args => operator.meaning (arguments ops args)
  | unlisted => fun _ => .error .badArguments
  | call name args => callMeaning ops name (arguments ops args)

def arguments (ops : Operations) : List Rule → List Argument
  | [] => []
  | r :: rest => ⟨r, meaning ops r⟩ :: arguments ops rest

end

end Rule

end FeatureFlags
