import FeatureFlags.Proofs.Collections.Results
import FeatureFlags.Targeting.Meaning
import Mathlib.Data.List.Basic

/-!
# Proofs/Targeting/Operators — where operators evaluate their arguments

An operator that goes through no list looks at its arguments only where it stands: it may as well have
them frozen there (`Operator.meaning_frozen`).  A loop evaluates its collection where it stands and its
body at the items of the collection only.  `Operator.meaning_congr` says so of all operators: what the
arguments mean elsewhere does not matter.
-/

namespace FeatureFlags

/-! ## Arguments in one scope -/

namespace Argument

/-- **The argument as it is in one scope**, wherever it is evaluated. -/
def frozen (s : Scope) (a : Argument) : Argument := ⟨a.rule, fun _ => a.meaning s⟩

@[simp] theorem rule_frozen (s : Scope) (a : Argument) : (a.frozen s).rule = a.rule := rfl

@[simp] theorem meaning_frozen (s t : Scope) (a : Argument) : (a.frozen s).meaning t = a.meaning s := rfl

@[simp] theorem values_frozen (s : Scope) (args : List Argument) :
    values (args.map (frozen s)) s = values args s := by
  induction args with
  | nil => rfl
  | cons a rest ih =>
    rw [values, values] at ih ⊢
    rw [List.map_cons, List.mapM_cons, List.mapM_cons, meaning_frozen, ih]

/-- The arguments that rules are, each with its meaning. -/
def ofRules (m : Rule → Meaning) (rules : List Rule) : List Argument := rules.map fun r => ⟨r, m r⟩

variable {rules : List Rule} {m m' : Rule → Meaning} {s : Scope}

/-- Arguments are alike in a scope if they mean the same there. -/
theorem frozen_congr (h : ∀ r ∈ rules, m r s = m' r s) :
    (ofRules m rules).map (frozen s) = (ofRules m' rules).map (frozen s) := by
  rw [ofRules, ofRules, List.map_map, List.map_map]
  refine List.map_congr_left fun r hr => ?_
  simp only [Function.comp_apply, frozen, h r hr]

theorem values_congr (h : ∀ r ∈ rules, m r s = m' r s) :
    values (ofRules m rules) s = values (ofRules m' rules) s := by
  rw [← values_frozen, frozen_congr h, values_frozen]

end Argument

namespace Operator

open Argument

variable {s : Scope}

/-! ## Operators that evaluate where they stand -/

section Frozen

variable (s) (args : List Argument)

theorem onValues_frozen (f : List Json → RuleResult) :
    onValues f (args.map (frozen s)) s = onValues f args s := by
  rw [onValues, onValues, values_frozen]

theorem onTwo_frozen (otherwise : RuleResult) (f : Json → Json → RuleResult) :
    onTwo otherwise f (args.map (frozen s)) s = onTwo otherwise f args s := by
  rcases args with - | ⟨a, - | ⟨b, rest⟩⟩ <;> rfl

theorem lookupMeaning_frozen : lookupMeaning (args.map (frozen s)) s = lookupMeaning args s := by
  rcases args with - | ⟨a, - | ⟨d, rest⟩⟩
  · rfl
  · rfl
  · simp only [List.map_cons, lookupMeaning, rule_frozen, meaning_frozen]
    split
    · next text _ =>
      simp only [pure_bind]
      cases s.value? (Path.ofText text) <;> rfl
    · refine congrArg _ (funext fun path => ?_)
      simp only [pure_bind]
      cases valueAtPath? s path <;> rfl

theorem conditionalMeaning_frozen :
    conditionalMeaning (args.map (frozen s)) s = conditionalMeaning args s := by
  induction args using conditionalMeaning.induct with
  | case1 => rfl
  | case2 a => rfl
  | case3 condition consequence rest ih =>
    simp only [List.map_cons, conditionalMeaning, meaning_frozen, ih]

theorem ternaryMeaning_frozen : ternaryMeaning (args.map (frozen s)) s = ternaryMeaning args s := by
  rcases args with - | ⟨a, - | ⟨b, - | ⟨c, rest⟩⟩⟩ <;> rfl

theorem junctionMeaning_frozen (decisive : Bool) :
    junctionMeaning decisive (args.map (frozen s)) s = junctionMeaning decisive args s := by
  induction args using junctionMeaning.induct with
  | case1 => rfl
  | case2 a => rfl
  | case3 a rest hrest ih =>
    obtain ⟨b, rest, rfl⟩ := List.exists_cons_of_ne_nil hrest
    simp only [List.map_cons, junctionMeaning, meaning_frozen] at ih ⊢
    rw [ih]

theorem truthMeaning_frozen (positive : Bool) :
    truthMeaning positive (args.map (frozen s)) s = truthMeaning positive args s := by
  rcases args with - | ⟨a, rest⟩ <;> rfl

theorem eachWithFirst_frozen (test : Json → Json → Except RuleError Bool) (first : Json) :
    eachWithFirst test first (args.map (frozen s)) s = eachWithFirst test first args s := by
  induction args with
  | nil => rfl
  | cons a rest ih => simp only [List.map_cons, eachWithFirst, meaning_frozen, ih]

theorem equalMeaning_frozen (test : Json → Json → Except RuleError Bool) :
    equalMeaning test (args.map (frozen s)) s = equalMeaning test args s := by
  rcases args with - | ⟨a, - | ⟨b, rest⟩⟩
  · rfl
  · rfl
  · simp only [List.map_cons, equalMeaning, meaning_frozen]
    exact congrArg _ (funext fun first => eachWithFirst_frozen s (b :: rest) test first)

theorem chain_frozen (order : Order) (previous : Json) :
    chain order previous (args.map (frozen s)) s = chain order previous args s := by
  induction args generalizing previous with
  | nil => rfl
  | cons a rest ih => simp only [List.map_cons, chain, meaning_frozen, ih]

theorem orderedMeaning_frozen (order : Order) :
    orderedMeaning order (args.map (frozen s)) s = orderedMeaning order args s := by
  rcases args with - | ⟨a, - | ⟨b, rest⟩⟩
  · rfl
  · rfl
  · simp only [List.map_cons, orderedMeaning, meaning_frozen]
    exact congrArg _ (funext fun first => chain_frozen s (b :: rest) order first)

theorem rowMeaning_frozen (op : Arithmetic) (acc : Option Operand) :
    rowMeaning op acc (args.map (frozen s)) s = rowMeaning op acc args s := by
  induction args generalizing acc with
  | nil => rfl
  | cons a rest ih => simp only [List.map_cons, rowMeaning, meaning_frozen, ih]

theorem arithmeticMeaning_frozen (op : Arithmetic) :
    arithmeticMeaning op (args.map (frozen s)) s = arithmeticMeaning op args s := by
  rcases args with - | ⟨a, - | ⟨b, - | ⟨c, rest⟩⟩⟩
  · rfl
  · rfl
  · rfl
  · exact rowMeaning_frozen s (a :: b :: c :: rest) op none

theorem bestMeaning_frozen (beats : Binary64 → Binary64 → Bool) (best : Option (Json × Binary64)) :
    bestMeaning beats best (args.map (frozen s)) s = bestMeaning beats best args s := by
  induction args generalizing best with
  | nil => rfl
  | cons a rest ih => simp only [List.map_cons, bestMeaning, meaning_frozen, ih]

theorem extremeMeaning_frozen (beats : Binary64 → Binary64 → Bool) :
    extremeMeaning beats (args.map (frozen s)) s = extremeMeaning beats args s := by
  rcases args with - | ⟨a, - | ⟨b, rest⟩⟩
  · rfl
  · rfl
  · exact bestMeaning_frozen s (a :: b :: rest) beats none

end Frozen

/-- The operator goes through a list. -/
def isLoop : Operator → Bool
  | map | filter | reduce | quantified _ => true
  | _ => false

/-- **An operator that is no loop** looks at its arguments only where it stands. -/
theorem meaning_frozen {operator : Operator} (h : operator.isLoop = false) (args : List Argument)
    (s : Scope) : operator.meaning (args.map (frozen s)) s = operator.meaning args s := by
  cases operator with
  | lookup => exact lookupMeaning_frozen s args
  | missing => simp only [meaning, values_frozen]
  | missingSome => exact onTwo_frozen s args _ _
  | conditional => exact conditionalMeaning_frozen s args
  | ternary => exact ternaryMeaning_frozen s args
  | conjunction | disjunction => exact junctionMeaning_frozen s args _
  | negation | truth => exact truthMeaning_frozen s args _
  | looseEqual | strictEqual => exact equalMeaning_frozen s args _
  | looseUnequal | strictUnequal => exact onTwo_frozen s args _ _
  | ordered order => exact orderedMeaning_frozen s args order
  | arithmetic op => exact arithmeticMeaning_frozen s args op
  | least | greatest => exact extremeMeaning_frozen s args _
  | concatenate | merge => exact onValues_frozen s args _
  | substring =>
    rw [meaning, meaning, ← List.map_take]
    exact onValues_frozen s (args.take 3) _
  | membership | startsWith | endsWith => exact onTwo_frozen s args _ _
  | map | filter | reduce | quantified => cases h

/-! ## Loops -/

/-- The arguments that are evaluated where the operator stands. -/
def outer {α : Type} (operator : Operator) (args : List α) : List α :=
  match operator, args with
  | reduce, [collection, _, initial] => [collection, initial]
  | reduce, _ => []
  | map, [collection, _] | filter, [collection, _] | quantified _, [collection, _] => [collection]
  | map, _ | filter, _ | quantified _, _ => []
  | _, args => args

/-- The collection and the body of a loop. -/
def loop? {α : Type} (operator : Operator) (args : List α) : Option (α × α) :=
  match operator, args with
  | reduce, [collection, body, _] => some (collection, body)
  | map, [collection, body] | filter, [collection, body] | quantified _, [collection, body] =>
    some (collection, body)
  | _, _ => none

/-- **The items that a loop goes through**, of a collection. -/
def throughItems (operator : Operator) : Json → List Json
  | .arr items => items
  | .obj members => if operator = map ∨ operator = filter then members.map (·.2) else []
  | .null => []
  | v => if operator = map then [v] else []

/-- **The scope of the body** at an item. -/
def bodyScope (operator : Operator) (accumulator item : Json) : Scope :=
  match operator with
  | reduce => .reduction accumulator item
  | _ => .item item

theorem data_bodyScope (operator : Operator) (accumulator item : Json) :
    (operator.bodyScope accumulator item).data = item := by
  cases operator <;> rfl

/-- **Two meanings agree where an operator evaluates its arguments.** -/
structure AgreeOn (operator : Operator) (rules : List Rule) (m m' : Rule → Meaning) (s : Scope) :
    Prop where
  outer : ∀ r ∈ operator.outer rules, m r s = m' r s
  body : ∀ collection body v, operator.loop? rules = some (collection, body) →
    m collection s = .ok v → ∀ item ∈ operator.throughItems v, ∀ accumulator,
      m body (operator.bodyScope accumulator item) = m' body (operator.bodyScope accumulator item)

section Loops

variable {rules : List Rule} {m m' : Rule → Meaning}

theorem throughItems_map {v : Json} (h : v ≠ .null) :
    map.throughItems v = (itemsOf? v).getD [v] := by
  cases v with
  | null => exact absurd rfl h
  | _ => rfl

theorem mapMeaning_congr : {rules : List Rule} → map.AgreeOn rules m m' s →
    mapMeaning (ofRules m rules) s = mapMeaning (ofRules m' rules) s
  | [], _ | [_], _ | _ :: _ :: _ :: _, _ => rfl
  | [collection, body], h => by
    simp only [ofRules, List.map_cons, List.map_nil, mapMeaning, ← h.outer _ List.mem_cons_self]
    refine bind_congr_of_ok ?_
    intro v hv
    have hitems := mapM_congr fun item hitem => h.body _ _ v rfl hv item hitem .null
    split
    · rfl
    · rfl
    · next hnull _ =>
      rw [throughItems_map hnull] at hitems
      exact congrArg (· >>= _) hitems

/-- A test of an item depends on the body there. -/
theorem testItem_congr {r : Rule} {f g : Meaning} {item : Json} (h : f (.item item) = g (.item item)) :
    testItem ⟨r, f⟩ item = testItem ⟨r, g⟩ item := by
  simp only [testItem, atItem, h]

theorem filterMeaning_congr : {rules : List Rule} → filter.AgreeOn rules m m' s →
    filterMeaning (ofRules m rules) s = filterMeaning (ofRules m' rules) s
  | [], _ | [_], _ | _ :: _ :: _ :: _, _ => rfl
  | [collection, body], h => by
    simp only [ofRules, List.map_cons, List.map_nil, filterMeaning, ← h.outer _ List.mem_cons_self]
    refine bind_congr_of_ok ?_
    intro v hv
    have hbody := fun item hitem => h.body _ _ v rfl hv item hitem .null
    split
    · rfl
    · exact congrArg (· >>= _) (filterM_congr fun item hitem => testItem_congr (hbody item hitem))
    · refine congrArg (· >>= _) (filterM_congr fun e he => ?_)
      exact congrArg (Except.map Json.isTrue) (hbody e.2 (List.mem_map_of_mem he))
    · rfl

theorem anyItem_congr {test test' : Json → Except RuleError Bool} {items : List Json}
    (h : ∀ item ∈ items, test item = test' item) : anyItem test items = anyItem test' items := by
  induction items with
  | nil => rfl
  | cons item rest ih =>
    obtain ⟨hitem, hrest⟩ := List.forall_mem_cons.mp h
    rw [anyItem, anyItem, hitem, ih hrest]

theorem quantify_congr (q : Quantifier) {test test' : Json → Except RuleError Bool} {items : List Json}
    (h : ∀ item ∈ items, test item = test' item) : quantify q test items = quantify q test' items := by
  have hnot : ∀ item ∈ items, (test item).map not = (test' item).map not :=
    fun item hitem => congrArg _ (h item hitem)
  cases q with
  | all => rw [quantify, quantify, anyItem_congr hnot]
  | some | none => rw [quantify, quantify, anyItem_congr h]

theorem quantifiedMeaning_congr (q : Quantifier) : {rules : List Rule} →
    (quantified q).AgreeOn rules m m' s →
      quantifiedMeaning q (ofRules m rules) s = quantifiedMeaning q (ofRules m' rules) s
  | [], _ | [_], _ | _ :: _ :: _ :: _, _ => rfl
  | [collection, body], h => by
    simp only [ofRules, List.map_cons, List.map_nil, quantifiedMeaning,
      ← h.outer _ List.mem_cons_self]
    refine bind_congr_of_ok ?_
    intro v hv
    have hbody := fun item hitem => h.body _ _ v rfl hv item hitem .null
    split
    · rfl
    · exact congrArg (Except.map Json.bool)
        (quantify_congr q fun item hitem => testItem_congr (hbody item hitem))
    · rfl

theorem reduceItems_congr {body body' : Argument} {items : List Json} (accumulator : Json)
    (h : ∀ item ∈ items, ∀ accumulator,
      body.meaning (.reduction accumulator item) = body'.meaning (.reduction accumulator item)) :
    reduceItems body accumulator items = reduceItems body' accumulator items := by
  induction items generalizing accumulator with
  | nil => rfl
  | cons item rest ih =>
    obtain ⟨hitem, hrest⟩ := List.forall_mem_cons.mp h
    rw [reduceItems, reduceItems, hitem]
    exact bind_congr_of_ok fun next _ => ih next hrest

theorem reduceMeaning_congr : {rules : List Rule} → reduce.AgreeOn rules m m' s →
    reduceMeaning (ofRules m rules) s = reduceMeaning (ofRules m' rules) s
  | [], _ | [_], _ | [_, _], _ | _ :: _ :: _ :: _ :: _, _ => rfl
  | [collection, body, initial], h => by
    simp only [ofRules, List.map_cons, List.map_nil, reduceMeaning, ← h.outer _ List.mem_cons_self,
      ← h.outer initial (List.mem_cons_of_mem _ List.mem_cons_self)]
    refine bind_congr_of_ok ?_
    intro v hv
    refine bind_congr_of_ok ?_
    intro first _
    have hbody := h.body _ _ v rfl hv
    split
    · rfl
    · split
      · rfl
      · exact reduceItems_congr _ hbody
    · rfl

end Loops

/-! ## All operators -/

section All

variable {operator : Operator} {rules : List Rule} {m m' : Rule → Meaning}

theorem outer_of_not_isLoop (h : operator.isLoop = false) : operator.outer rules = rules := by
  cases operator <;> first | rfl | cases h

/-- **What the arguments of an operator mean elsewhere does not matter.** -/
theorem meaning_congr (h : operator.AgreeOn rules m m' s) :
    operator.meaning (ofRules m rules) s = operator.meaning (ofRules m' rules) s := by
  by_cases hloop : operator.isLoop = false
  · have houter := h.outer
    rw [outer_of_not_isLoop hloop] at houter
    rw [← meaning_frozen hloop, frozen_congr houter, meaning_frozen hloop]
  · cases operator with
    | map => exact mapMeaning_congr h
    | filter => exact filterMeaning_congr h
    | quantified q => exact quantifiedMeaning_congr q h
    | reduce => exact reduceMeaning_congr h
    | _ => exact absurd rfl hloop

theorem mem_of_mem_outer {r : Rule} (h : r ∈ operator.outer rules) : r ∈ rules := by
  rw [outer.eq_def] at h
  split at h <;> grind

theorem mem_of_loop? {collection body : Rule} (h : operator.loop? rules = some (collection, body)) :
    body ∈ rules := by
  rw [loop?.eq_def] at h
  split at h <;> grind

end All

end Operator

end FeatureFlags
