import FeatureFlags.Proofs.Evaluation.Context
import FeatureFlags.Proofs.Targeting.Operators
import FeatureFlags.Targeting.Evaluation

/-!
# Proofs/Targeting/Calls — what a rule shows to the operations that it calls

An operation gets the data in scope.  In the body of a loop that is the item and nothing else: the flag
and the caller are out of its sight, unless the item tells them (`Rule.Calls.data_eq`).  Everywhere else
it is the data of the evaluation.  What an operation would do on other data does not matter
(`Rule.meaning_congr`).

`Targeting.callsShow` puts this together for an evaluation.
-/

namespace FeatureFlags

/-! ## Places -/

namespace Rule

variable {ops others : Operations}

/-- **Induction over rules.**  A rule is reached from those in it. -/
@[elab_as_elim]
theorem induct {motive : Rule → Prop} (literal : ∀ v, motive (literal v))
    (list : ∀ items, (∀ r ∈ items, motive r) → motive (list items))
    (apply : ∀ operator args, (∀ r ∈ args, motive r) → motive (apply operator args))
    (unlisted : motive unlisted)
    (call : ∀ name args, (∀ r ∈ args, motive r) → motive (call name args)) : ∀ r, motive r
  | .literal v => literal v
  | .list items => list items fun r _ => induct literal list apply unlisted call r
  | .apply operator args => apply operator args fun r _ => induct literal list apply unlisted call r
  | .unlisted => unlisted
  | .call name args => call name args fun r _ => induct literal list apply unlisted call r

theorem arguments_eq_ofRules (ops : Operations) (rules : List Rule) :
    arguments ops rules = Argument.ofRules (meaning ops) rules := by
  induction rules with
  | nil => rfl
  | cons r rest ih =>
    rw [arguments, ih]
    rfl

/-- **Where the evaluation of a rule may come to**, and in which scope.  The items are those of the loops
around, the innermost first. -/
inductive Visits (ops : Operations) : Rule → Scope → List Json → Rule → Scope → Prop
  | here (r : Rule) (s : Scope) : Visits ops r s [] r s
  | item {items : List Rule} {r q : Rule} {s t : Scope} {around : List Json} (hr : r ∈ items)
      (h : Visits ops r s around q t) : Visits ops (list items) s around q t
  | argument {name : String} {args : List Rule} {r q : Rule} {s t : Scope} {around : List Json}
      (hr : r ∈ args) (h : Visits ops r s around q t) : Visits ops (call name args) s around q t
  | outer {operator : Operator} {args : List Rule} {r q : Rule} {s t : Scope} {around : List Json}
      (hr : r ∈ operator.outer args) (h : Visits ops r s around q t) :
      Visits ops (apply operator args) s around q t
  /-- The body of a loop is evaluated at the items of its collection. -/
  | body {operator : Operator} {args : List Rule} {collection body q : Rule} {s t : Scope}
      {v item : Json} {around : List Json} (accumulator : Json)
      (hloop : operator.loop? args = some (collection, body)) (hv : collection.meaning ops s = .ok v)
      (hitem : item ∈ operator.throughItems v)
      (h : Visits ops body (operator.bodyScope accumulator item) around q t) :
      Visits ops (apply operator args) s (around ++ [item]) q t

/-- **The data in scope** are the item of the innermost loop, and without a loop those at the top. -/
theorem Visits.data_eq {r q : Rule} {s t : Scope} {around : List Json}
    (h : Visits ops r s around q t) : t.data = around.head?.getD s.data := by
  induction h with
  | here => rfl
  | item _ _ ih | argument _ _ ih | outer _ _ ih => exact ih
  | body _ _ _ _ _ ih =>
    rw [ih, Operator.data_bodyScope, List.head?_append, Option.getD_or]
    rfl

/-- **A rule may come to call an operation**, in a scope and with such items around. -/
def Calls (ops : Operations) (r : Rule) (s : Scope) (around : List Json) (name : String) (t : Scope) :
    Prop :=
  ∃ args, r.Visits ops s around (call name args) t

section Calls

variable {r : Rule} {s t : Scope} {around : List Json} {name : String}

theorem Calls.data_eq (h : r.Calls ops s around name t) : t.data = around.head?.getD s.data := by
  obtain ⟨args, hvisit⟩ := h
  exact hvisit.data_eq

theorem calls_call (name : String) (args : List Rule) (s : Scope) :
    (call name args).Calls ops s [] name s := ⟨args, .here _ _⟩

theorem Calls.of_item {items : List Rule} (h : r.Calls ops s around name t) (hr : r ∈ items) :
    (list items).Calls ops s around name t := by
  obtain ⟨args, hvisit⟩ := h
  exact ⟨args, .item hr hvisit⟩

theorem Calls.of_argument {other : String} {args : List Rule} (h : r.Calls ops s around name t)
    (hr : r ∈ args) : (call other args).Calls ops s around name t := by
  obtain ⟨args, hvisit⟩ := h
  exact ⟨args, .argument hr hvisit⟩

theorem Calls.of_outer {operator : Operator} {args : List Rule} (h : r.Calls ops s around name t)
    (hr : r ∈ operator.outer args) : (apply operator args).Calls ops s around name t := by
  obtain ⟨args, hvisit⟩ := h
  exact ⟨args, .outer hr hvisit⟩

theorem Calls.of_body {operator : Operator} {args : List Rule} {collection body : Rule} {v item acc : Json}
    (h : body.Calls ops (operator.bodyScope acc item) around name t)
    (hloop : operator.loop? args = some (collection, body)) (hv : collection.meaning ops s = .ok v)
    (hitem : item ∈ operator.throughItems v) :
    (apply operator args).Calls ops s (around ++ [item]) name t := by
  obtain ⟨args, hvisit⟩ := h
  exact ⟨args, .body acc hloop hv hitem hvisit⟩

end Calls

end Rule

/-! ## Other operations -/

/-- **The operation of a name**, shown these data. -/
def Operations.shown? (ops : Operations) (name : String) (data : Json) :
    Option (List Json → Except Overflow Json) :=
  (ops.get? name).map fun op values => op values data

namespace Rule

variable {ops others : Operations}

/-- A call is one of the operation shown the data in scope. -/
theorem callMeaning_eq (name : String) (args : List Argument) (s : Scope) :
    callMeaning ops name args s =
      match ops.shown? name s.data with
      | none => .error (.unknownOperator name)
      | some op => Argument.values args s >>= fun values => (op values).mapError .overflow := by
  rw [callMeaning, Operations.shown?]
  cases ops.get? name with
  | none => rfl
  | some op => cases Argument.values args s <;> rfl

/-- **A rule means the same with other operations** that do the same where it calls them. -/
theorem meaning_congr (r : Rule) {s : Scope}
    (h : ∀ around name t, r.Calls ops s around name t →
      ops.shown? name t.data = others.shown? name t.data) : r.meaning ops s = r.meaning others s := by
  induction r using Rule.induct generalizing s with
  | literal v => rfl
  | unlisted => rfl
  | list items ih =>
    have hitems (r : Rule) (hr : r ∈ items) : r.meaning ops s = r.meaning others s :=
      ih r hr fun around name t hcall => h around name t (hcall.of_item hr)
    rw [meaning, meaning, arguments_eq_ofRules, arguments_eq_ofRules, Operator.onValues,
      Operator.onValues, Argument.values_congr hitems]
  | apply operator args ih =>
    rw [meaning, meaning, arguments_eq_ofRules, arguments_eq_ofRules]
    -- the body of a loop has scopes of its own, one for each item and what was gathered before
    refine Operator.meaning_congr ⟨fun r hr => ?_, fun collection body v hloop hv item hitem acc => ?_⟩
    · exact ih r (Operator.mem_of_mem_outer hr) fun around name t hcall =>
        h around name t (hcall.of_outer hr)
    · exact ih body (Operator.mem_of_loop? hloop) fun around name t hcall =>
        h _ name t (hcall.of_body hloop hv hitem)
  | call name args ih =>
    have hargs (r : Rule) (hr : r ∈ args) : r.meaning ops s = r.meaning others s :=
      ih r hr fun around name t hcall => h around name t (hcall.of_argument hr)
    rw [meaning, meaning, arguments_eq_ofRules, arguments_eq_ofRules, callMeaning_eq, callMeaning_eq,
      h [] name s (calls_call name args s), Argument.values_congr hargs]

end Rule

/-! ## The flag and the caller -/

namespace Targeting

variable {ops : Operations} {flagKey : String} {time : Int} {rule : Json} {attributes : KeyMap Json}
  {compiled : Rule}

/-- **Data tell the flag and the caller**: the key of the flag, and the targeting key as the attributes
have it. -/
structure Tells (data : Json) (flagKey : String) (attributes : KeyMap Json) : Prop where
  flagKey_eq : data.lookup? "$flagd.flagKey" = some (.str flagKey)
  targetingKey_eq :
    data.member? Context.targetingKeyName = attributes.get? Context.targetingKeyName

theorem child?_data (flagKey : String) (time : Int) (attributes : KeyMap Json) :
    (data flagKey time attributes).child? propertiesKey = some (properties flagKey time) := by
  have h := member?_data flagKey time attributes propertiesKey
  rwa [if_pos rfl] at h

/-- The data of an evaluation do. -/
theorem tells_data (flagKey : String) (time : Int) (attributes : KeyMap Json) :
    Tells (data flagKey time attributes) flagKey attributes where
  flagKey_eq := by
    have hsegments : Json.segments "$flagd.flagKey" = [propertiesKey, "flagKey"] := by decide
    rw [Json.lookup?, hsegments, Json.follow?, List.foldlM_cons, child?_data]
    rfl
  targetingKey_eq := by
    rw [member?_data, if_neg (by decide)]

theorem flagKey_data (flagKey : String) (time : Int) (attributes : KeyMap Json) :
    Fractional.flagKey (data flagKey time attributes) = flagKey := by
  rw [Fractional.flagKey, (tells_data flagKey time attributes).flagKey_eq]
  rfl

end Targeting

/-- **Of the data a split by a text takes the key of the flag only.** -/
theorem Fractional.evaluate_text (key : String) (entries : List Json) (data : Json) :
    evaluate (.str key :: entries) data = evaluate (.str (flagKey data ++ key) :: entries) .null := by
  have hnone : flagKey .null = "" := by decide
  simp only [evaluate, bucketingKey?, hnone, String.empty_append]

namespace Targeting

/-- **What an evaluation shows to the operations that it calls.** -/
structure CallsShow (ops : Operations) (flagKey : String) (time : Int) (rule : Json)
    (attributes : KeyMap Json) (compiled : Rule) : Prop where
  /-- An operation gets the item of the innermost loop around it, and without a loop the data of the
  evaluation. -/
  data_eq : ∀ around name s,
    compiled.Calls ops (.item (data flagKey time attributes)) around name s →
      s.data = around.head?.getD (data flagKey time attributes)
  /-- So it is told the flag and the caller unless such an item does not tell them. -/
  tells_iff : ∀ around name s,
    compiled.Calls ops (.item (data flagKey time attributes)) around name s →
      (Tells s.data flagKey attributes ↔ ∀ item ∈ around.head?, Tells item flagKey attributes)
  /-- A split by a text is that of the flag, in a loop that of the flag that the item tells. -/
  fractional_eq : ∀ around name s,
    compiled.Calls ops (.item (data flagKey time attributes)) around name s →
      ∀ key entries, Fractional.evaluate (.str key :: entries) s.data =
        Fractional.evaluate (.str (around.head?.elim flagKey Fractional.flagKey ++ key) :: entries) .null
  /-- Operations that do the same on these data give the same result … -/
  evaluate_congr : ∀ others : Operations,
    (∀ around name s, compiled.Calls ops (.item (data flagKey time attributes)) around name s →
      ops.shown? name s.data = others.shown? name s.data) →
      evaluate ops flagKey time rule attributes = evaluate others flagKey time rule attributes
  /-- … and if none is called in a loop, so do those that always get the data of the evaluation. -/
  evaluate_outside :
    (∀ around name s, compiled.Calls ops (.item (data flagKey time attributes)) around name s →
      around = []) →
      evaluate ops flagKey time rule attributes =
        evaluate (ops.mapped fun _ op values _ => op values (data flagKey time attributes))
          flagKey time rule attributes

theorem tells_getD (around : List Json) :
    Tells (around.head?.getD (data flagKey time attributes)) flagKey attributes ↔
      ∀ item ∈ around.head?, Tells item flagKey attributes := by
  cases around with
  | nil => exact iff_of_true (tells_data flagKey time attributes) fun _ h => nomatch h
  | cons item rest => simp

theorem flagKey_getD (around : List Json) :
    Fractional.flagKey (around.head?.getD (data flagKey time attributes)) =
      around.head?.elim flagKey Fractional.flagKey := by
  cases around with
  | nil => exact flagKey_data flagKey time attributes
  | cons item rest => rfl

theorem evaluate_congr (h : Rule.ofJson rule = .ok compiled) {others : Operations}
    (hothers : ∀ around name s,
      compiled.Calls ops (.item (data flagKey time attributes)) around name s →
        ops.shown? name s.data = others.shown? name s.data) :
    evaluate ops flagKey time rule attributes = evaluate others flagKey time rule attributes := by
  rw [evaluate, evaluate, h]
  simp only [bind, Except.bind, compiled.meaning_congr hothers]

/-- **The law of calls.** -/
theorem callsShow (ops : Operations) (flagKey : String) (time : Int) (attributes : KeyMap Json)
    (h : Rule.ofJson rule = .ok compiled) :
    CallsShow ops flagKey time rule attributes compiled where
  data_eq around name s hcall := hcall.data_eq
  tells_iff around name s hcall := hcall.data_eq ▸ tells_getD around
  fractional_eq around name s hcall key entries := by
    rw [Fractional.evaluate_text, hcall.data_eq]
    exact congrArg (fun k => Fractional.evaluate (.str (k ++ key) :: entries) .null)
      (flagKey_getD around)
  evaluate_congr others := evaluate_congr h
  evaluate_outside houtside := by
    refine evaluate_congr h fun around name s hcall => ?_
    obtain rfl := houtside around name s hcall
    rw [Operations.shown?, Operations.shown?, KeyMap.get?_mapped, Option.map_map, hcall.data_eq]
    rfl

/-- A split in the body of a loop. -/
def splitInLoop : Json :=
  .obj [("if", .arr [
    .obj [("some", .arr [.arr [.int 1], .obj [("fractional", .arr [.arr [.str "a", .int 1]])]])],
    .str "yes", .str "no"])]

/-- The rule that it is read as. -/
def splitInLoopRule : Rule :=
  .apply .conditional [
    .apply (.quantified .some) [.literal (.arr [.int 1]),
      .call "fractional" [.literal (.arr [.str "a", .int 1])]],
    .literal (.str "yes"), .literal (.str "no")]

def caller : KeyMap Json := KeyMap.ofList [(Context.targetingKeyName, .str "u")]

/-- The split is shown the item, finds no targeting key there and serves nothing. -/
theorem callsShow_splitInLoop :
    (∃ s, splitInLoopRule.Calls .standard (.item (data "flag" 0 caller)) [.int 1] "fractional" s ∧
        s.data = .int 1 ∧ ¬ Tells s.data "flag" caller) ∧
      evaluate .standard "flag" 0 splitInLoop caller = .ok (some (.str "no")) := by
  have hread : Rule.ofJson splitInLoop = .ok splitInLoopRule := by rfl
  have hlaw := callsShow .standard "flag" 0 caller hread
  have hcall : splitInLoopRule.Calls .standard (.item (data "flag" 0 caller)) [.int 1] "fractional"
      (.item (.int 1)) :=
    ⟨_, .outer List.mem_cons_self (.body .null rfl rfl List.mem_cons_self (.here _ _))⟩
  refine ⟨⟨_, hcall, hlaw.data_eq _ _ _ hcall, fun htells => ?_⟩, by rfl⟩
  have hitem := (hlaw.tells_iff _ _ _ hcall).mp htells (.int 1) rfl
  have hnone : (Json.int 1).lookup? "$flagd.flagKey" = none := by rfl
  exact nomatch hnone.symm.trans hitem.flagKey_eq

end Targeting

end FeatureFlags
