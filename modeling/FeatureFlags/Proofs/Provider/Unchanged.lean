import FeatureFlags.Proofs.Provider.Answer
import FeatureFlags.Proofs.Store.Difference

/-!
# Proofs/Provider/Unchanged — what a key that did not change is answered

When a table is replaced and a key is not among the changed ones, a request for it finds an equal flag.
Without an enricher the annotations of the table do not enter the choice, so the answer is the same but
for its annotations (`Answering.resolve_unchanged`), as long as the zeros in the two rules have the same
signs.  Equality takes no notice of these signs, but a rule does: the two zeros name different variants.
-/

namespace FeatureFlags

/-! ## The signs of the zeros of a flag -/

namespace FlagSet

/-- **The signs of the zeros in the rule** under a key. -/
def ruleSigns (table : FlagSet) (key : String) : List Bool :=
  ((table.get? key).bind (·.rule)).elim [] Json.zeroSigns

/-- … and in a variant under it. -/
def variantSigns (table : FlagSet) (key name : String) : List Bool :=
  ((table.get? key).bind (·.variant? name)).elim [] Json.zeroSigns

end FlagSet

/-- Equal rules whose zeros have the same signs are the same. -/
theorem Flag.rule_eq {f g : Flag} (h : (f.rule == g.rule) = true)
    (hsigns : f.rule.elim [] Json.zeroSigns = g.rule.elim [] Json.zeroSigns) : f.rule = g.rule := by
  generalize f.rule = rule at h hsigns ⊢
  generalize g.rule = other at h hsigns ⊢
  match rule, other, h with
  | none, none, _ => rfl
  | some _, some _, h => exact congrArg some (Json.eq_of_beq h hsigns)

/-! ## Values in a type -/

namespace FlagValue

/-- Equality of values of one type; doubles and the doubles in an object are equal by value. -/
protected def beq : FlagValue → FlagValue → Bool
  | boolean a, boolean b => a == b
  | text a, text b => a == b
  | integer i, integer j => i == j
  | double x, double y => x.eq y
  | object v, object w => v == w
  | _, _ => false

instance : BEq FlagValue := ⟨FlagValue.beq⟩

/-- **Values that are no different**: a default may be a NaN, which is equal to nothing. -/
def Same (v w : FlagValue) : Prop := v = w ∨ (v == w) = true

/-- Equal numbers make one integer. -/
theorem integerOf_beq {m n : Number} (h : (m == n) = true) : integerOf m = integerOf n := by
  cases m with
  | int i =>
    cases n with
    | int j => exact congrArg (fun i => integerOf (.int i)) (eq_of_beq (α := Int) h)
    | double y => cases h
  | double x =>
    cases n with
    | int j => cases h
    | double y => exact Binary64.toInt64_of_eq h

theorem same_toDouble {m n : Number} (h : (m == n) = true) :
    Same (double m.toDouble) (double n.toDouble) := by
  cases m with
  | int i =>
    cases n with
    | int j => exact .inl (congrArg (fun i => double (Number.int i).toDouble) (eq_of_beq (α := Int) h))
    | double y => cases h
  | double x =>
    cases n with
    | int j => cases h
    | double y => exact .inr h

/-- **Equal variants are no different in any type.** -/
theorem coerce_beq (type : FlagType) {v w : Json} (h : (v == w) = true) :
    Option.Rel Same (coerce type v) (coerce type w) := by
  obtain - | b | hnumber | s | hitems | hmembers := Json.alike_iff.mpr h
  · cases type <;> exact .none
  · cases type
    case boolean => exact .some (.inl rfl)
    all_goals exact .none
  · cases type
    case integer => exact .some (.inl (congrArg integer (integerOf_beq hnumber)))
    case double => exact .some (same_toDouble hnumber)
    all_goals exact .none
  · cases type
    case text => exact .some (.inl rfl)
    all_goals exact .none
  · cases type
    case object => exact .some (.inr h)
    all_goals exact .none
  · cases type
    case object => exact .some (.inr h)
    all_goals exact .none

end FlagValue

/-! ## Answers -/

/-- **Answers that differ in their annotations only.** -/
structure Resolution.Agrees (r s : Resolution FlagValue) : Prop where
  flagKey : r.flagKey = s.flagKey
  value : r.value.Same s.value
  variant : r.variant = s.variant
  reason : r.reason = s.reason
  errorCode : r.errorCode = s.errorCode
  errorMessage : r.errorMessage = s.errorMessage

namespace Answering

/-- **Requests that are answered alike**, but for annotations, or that both end in one overflow. -/
inductive AnsweredAlike :
    Except Overflow (Resolution FlagValue) → Except Overflow (Resolution FlagValue) → Prop
  | answered {r s : Resolution FlagValue} (h : r.Agrees s) : AnsweredAlike (.ok r) (.ok s)
  | overflow (cause : Overflow) : AnsweredAlike (.error cause) (.error cause)

variable {a : Answering} {before after : FlagSet} {key : String} {f g : Flag} {context : Context}

/-- **Choices that differ in their annotations only**; the variants are equal. -/
inductive Agree : Except Stop Choice → Except Stop Choice → Prop
  | refused (code : ErrorCode) (message : String) (metadata other : Metadata) :
      Agree (.error (.refused ⟨code, message, metadata⟩)) (.error (.refused ⟨code, message, other⟩))
  | overflow (cause : Overflow) : Agree (.error (.overflow cause)) (.error (.overflow cause))
  | chosen {value value' : Json} (name : String) (reason : Reason) (metadata other : Metadata)
      (hvalue : (value == value') = true) :
      Agree (.ok ⟨name, value, reason, metadata⟩) (.ok ⟨name, value', reason, other⟩)

/-- **Names that are given alike**: the same one, or stops that differ in their annotations only. -/
inductive NamedAlike : Except Stop (String × Reason) → Except Stop (String × Reason) → Prop
  | named (name : String) (reason : Reason) : NamedAlike (.ok (name, reason)) (.ok (name, reason))
  | refused (code : ErrorCode) (message : String) (metadata other : Metadata) :
      NamedAlike (.error (.refused ⟨code, message, metadata⟩)) (.error (.refused ⟨code, message, other⟩))
  | overflow (cause : Overflow) : NamedAlike (.error (.overflow cause)) (.error (.overflow cause))

theorem namedAlike_stopOf (metadata other : Metadata) (e : RuleError) :
    NamedAlike (.error (stopOf metadata e)) (.error (stopOf other e)) := by
  obtain ⟨cause, rfl, -⟩ | ⟨-, hstop⟩ := stopOf_cases metadata e
  · exact .overflow cause
  · obtain ⟨cause, rfl, -⟩ | ⟨-, hother⟩ := stopOf_cases other e
    · exact .overflow cause
    · rw [hstop, hother]
      exact .refused ..

/-- Without an enricher a flag of the same rule and default names the same variant in every table. -/
theorem namedAlike_nameVariant (henrich : a.enrich = none) (hrule : f.rule = g.rule)
    (hdefault : f.defaultVariant = g.defaultVariant) :
    NamedAlike (a.nameVariant before key f context) (a.nameVariant after key g context) := by
  have hcontext (table : FlagSet) : a.contextOf table context = context := by rw [contextOf, henrich]
  simp only [nameVariant, hcontext, hrule, hdefault]
  cases g.rule with
  | none => exact .named ..
  | some rule =>
    dsimp only
    cases Targeting.evaluate a.operations key a.time rule context.toObject with
    | error e => exact namedAlike_stopOf _ _ e
    | ok result =>
      dsimp only
      cases Outcome.ofResult result with
      | variant name => exact .named ..
      | default => exact .named ..
      | unusable message => exact .refused ..

theorem choose_of_disabled {table : FlagSet} (hflag : table.get? key = some f)
    (hdisabled : f.isEnabled = false) : a.choose table key context =
      .error (.refused ⟨.flagNotFound, named key ++ " is disabled", table.metadata⟩) :=
  choose_of_not_found (by simp [findFlag, hflag, hdisabled])

/-- Equal flags declare a variant both, with equal values, or neither of them. -/
theorem agree_variant (hflags : (f == g) = true) (name : String) (reason : Reason)
    (metadata other : Metadata) :
    Agree
      (match f.variant? name with
        | some value => .ok ⟨name, value, reason, metadata⟩
        | none => .error (.refused (missingVariant key f name metadata)))
      (match g.variant? name with
        | some value => .ok ⟨name, value, reason, other⟩
        | none => .error (.refused (missingVariant key g name other))) := by
  obtain ⟨-, hdefault, hvariants, -, -⟩ := Flag.beq_iff.mp hflags
  have hvalue : (f.variant? name == g.variant? name) = true := KeyMap.get?_beq hvariants name
  generalize f.variant? name = value at hvalue
  generalize g.variant? name = value' at hvalue
  cases value with
  | some value =>
    cases value' with
    | some value' => exact .chosen name reason _ _ hvalue
    | none => cases hvalue
  | none =>
    cases value' with
    | some value' => cases hvalue
    | none =>
      simp only [missingVariant, hdefault]
      split <;> exact .refused ..

/-- **Equal flags with the same rule are chosen from alike.** -/
theorem agree_choose (henrich : a.enrich = none) (hf : before.get? key = some f)
    (hg : after.get? key = some g) (hflags : (f == g) = true) (hrule : f.rule = g.rule) :
    Agree (a.choose before key context) (a.choose after key context) := by
  obtain ⟨hstate, hdefault, -, -, -⟩ := Flag.beq_iff.mp hflags
  have hsame : f.isEnabled = g.isEnabled := by rw [Flag.isEnabled, Flag.isEnabled, hstate]
  cases henabled : f.isEnabled with
  | false =>
    rw [choose_of_disabled hf henabled, choose_of_disabled hg (hsame ▸ henabled)]
    exact .refused ..
  | true =>
    rw [choose_of_findFlag (findFlag_eq_ok_iff.mpr ⟨hf, henabled⟩),
      choose_of_findFlag (findFlag_eq_ok_iff.mpr ⟨hg, hsame ▸ henabled⟩)]
    have hnamed : NamedAlike (a.nameVariant before key f context) (a.nameVariant after key g context) :=
      namedAlike_nameVariant henrich hrule hdefault
    generalize a.nameVariant before key f context = first at hnamed
    generalize a.nameVariant after key g context = second at hnamed
    cases hnamed with
    | named name reason => exact agree_variant hflags name reason _ _
    | refused code message metadata other => exact .refused ..
    | overflow cause => exact .overflow cause

/-- **A key that did not change is chosen for alike**, if the zeros in the rules have the same signs. -/
theorem agree_choose_of_unchanged (henrich : a.enrich = none)
    (hkey : (before.changedKeys after).contains key = false)
    (hrule : before.ruleSigns key = after.ruleSigns key) :
    Agree (a.choose before key context) (a.choose after key context) := by
  have hsame : (before.get? key == after.get? key) = true := by
    refine BEq.symm (FlagSet.not_differsAt_iff.mp ?_)
    rw [← FlagSet.contains_changedKeys, hkey]
    exact Bool.false_ne_true
  match hf : before.get? key, hg : after.get? key, hsame with
  | none, none, _ =>
    rw [choose_of_not_found (by rw [findFlag, hf]), choose_of_not_found (by rw [findFlag, hg])]
    exact .refused ..
  | some f, some g, hsame =>
    rw [FlagSet.ruleSigns, FlagSet.ruleSigns, hf, hg] at hrule
    exact agree_choose henrich hf hg hsame (Flag.rule_eq (Flag.beq_iff.mp hsame).2.2.2.1 hrule)

section Resolve

variable {s t : Store} {choice : Choice} {type : FlagType} {default : FlagValue}

/-- **Choices that agree are answered alike** in every type. -/
theorem answeredAlike_resolve
    (h : Agree (a.chooseFrom s.table? key context) (a.chooseFrom t.table? key context)) :
    AnsweredAlike (a.resolve s key type default context) (a.resolve t key type default context) := by
  generalize hs : a.chooseFrom s.table? key context = first at h
  generalize ht : a.chooseFrom t.table? key context = second at h
  cases h with
  | refused code message metadata other =>
    rw [resolve_of_refusal hs, resolve_of_refusal ht]
    exact .answered ⟨rfl, .inl rfl, rfl, rfl, rfl, rfl⟩
  | overflow cause =>
    rw [resolve_of_overflow hs, resolve_of_overflow ht]
    exact .overflow cause
  | @chosen value value' name reason metadata other hvalue =>
    rw [resolve_of_choice hs, resolve_of_choice ht, answerOf_eq, answerOf_eq]
    dsimp only
    have hcoerce := FlagValue.coerce_beq type hvalue
    generalize FlagValue.coerce type value = got at hcoerce
    generalize FlagValue.coerce type value' = got' at hcoerce
    cases hcoerce with
    | none => exact .answered ⟨rfl, .inl rfl, rfl, rfl, rfl, rfl⟩
    | some hsame => exact .answered ⟨rfl, hsame, rfl, rfl, rfl, rfl⟩

theorem variantSigns_of_choose {table : FlagSet} (h : a.choose table key context = .ok choice) :
    table.variantSigns key choice.variant = choice.value.zeroSigns := by
  obtain ⟨hflag, -, -, hvalue⟩ := chooses_iff.mpr h
  rw [FlagSet.variantSigns, hflag, Option.bind_some, hvalue, Option.elim_some]

theorem value_answerOf (key : String) (type : FlagType) (default : FlagValue) (choice : Choice) :
    (answerOf key type default choice).value = (FlagValue.coerce type choice.value).getD default := by
  rw [answerOf_eq]
  cases FlagValue.coerce type choice.value <;> rfl

end Resolve

/-- **A key that is not among the changed ones is answered the same**, but for annotations.  Without an
enricher, and as long as the zeros in the two rules have the same signs, the variant, the reason and the
error are the same and the values are equal, or neither request has an answer; with the same signs in the
variants, too, they are the same value. -/
theorem resolve_unchanged (a : Answering) (henrich : a.enrich = none) {s t : Store}
    {before after : FlagSet} (hs : s.table? = some before) (ht : t.table? = some after) {key : String}
    (hkey : (before.changedKeys after).contains key = false)
    (hrule : before.ruleSigns key = after.ruleSigns key)
    (type : FlagType) (default : FlagValue) (context : Context) :
    AnsweredAlike (a.resolve s key type default context) (a.resolve t key type default context) ∧
      ((∀ name, before.variantSigns key name = after.variantSigns key name) →
        (a.resolve s key type default context).map (·.value) =
          (a.resolve t key type default context).map (·.value)) := by
  have hfrom {store : Store} {table : FlagSet} (h : store.table? = some table) :
      a.chooseFrom store.table? key context = a.choose table key context := by rw [h]; rfl
  have hagree : Agree (a.choose before key context) (a.choose after key context) :=
    agree_choose_of_unchanged henrich hkey hrule
  refine ⟨answeredAlike_resolve (by rwa [hfrom hs, hfrom ht]), fun hvariants => ?_⟩
  generalize hb : a.choose before key context = first at hagree
  generalize ha : a.choose after key context = second at hagree
  cases hagree with
  | refused code message metadata other =>
    rw [resolve_of_refusal ((hfrom hs).trans hb), resolve_of_refusal ((hfrom ht).trans ha)]
    rfl
  | overflow cause =>
    rw [resolve_of_overflow ((hfrom hs).trans hb), resolve_of_overflow ((hfrom ht).trans ha)]
  | @chosen value value' name reason metadata other hvalue =>
    have hsigns : value.zeroSigns = value'.zeroSigns :=
      ((variantSigns_of_choose hb).symm.trans (hvariants name)).trans (variantSigns_of_choose ha)
    rw [resolve_of_choice ((hfrom hs).trans hb), resolve_of_choice ((hfrom ht).trans ha), Except.map,
      Except.map, value_answerOf, value_answerOf, Json.eq_of_beq hvalue hsigns]

/-- A table with one flag, whose rule gives a double. -/
def tableOf (rule : Binary64) (value : Json) (metadata : Metadata) : FlagSet :=
  ⟨KeyMap.ofList [("on", { Flag.bare .enabled "0" with
      variants := KeyMap.ofList [("0", value), ("-0", .str "minus")]
      rule := some (.num (.double rule)) })], metadata⟩

/-- A store whose variant is a zero. -/
def zeroStore (value : Binary64) (metadata : Metadata) : Store :=
  ⟨tableOf .zero (.num (.double value)) metadata, true⟩

/-- The zeros of a variant have other signs, and the annotations of the tables differ. -/
theorem resolve_unchanged_zero :
    ∃ r s, (⟨.standard, none, 0⟩ : Answering).resolve (zeroStore .zero ∅) "on" .double (.double .nan) ∅ =
        .ok r ∧
      (⟨.standard, none, 0⟩ : Answering).resolve
          (zeroStore Binary64.zero.neg (KeyMap.ofList [("a", .boolean true)])) "on" .double
          (.double .nan) ∅ = .ok s ∧
      r.Agrees s := by
  have hanswered : ((⟨.standard, none, 0⟩ : Answering).resolve (zeroStore .zero ∅) "on" .double
      (.double .nan) ∅).toOption.isSome = true := by decide +kernel
  have hkey : ((tableOf .zero (.num (.double .zero)) ∅).changedKeys
      (tableOf .zero (.num (.double Binary64.zero.neg)) (KeyMap.ofList [("a", .boolean true)]))).contains
        "on" = false := by decide +kernel
  obtain ⟨halike, -⟩ := @resolve_unchanged ⟨.standard, none, 0⟩ rfl (zeroStore .zero ∅)
    (zeroStore Binary64.zero.neg (KeyMap.ofList [("a", .boolean true)])) _ _ rfl rfl "on" hkey
    (by decide +kernel) .double (.double .nan) ∅
  obtain ⟨r, hr⟩ := Option.isSome_iff_exists.mp hanswered
  rw [eq_ok_of_toOption hr] at halike ⊢
  generalize Answering.resolve _ (zeroStore Binary64.zero.neg _) _ _ _ _ = second at halike ⊢
  cases halike with
  | @answered r s hagrees => exact ⟨r, s, rfl, rfl, hagrees⟩

/-- The zeros of rules that are equal name different variants. -/
example :
    ((tableOf .zero (.str "plus") ∅).changedKeys
        (tableOf Binary64.zero.neg (.str "plus") ∅)).contains "on" = false ∧
      [Binary64.zero, Binary64.zero.neg].map (fun rule =>
        ((⟨.standard, none, 0⟩ : Answering).resolve ⟨tableOf rule (.str "plus") ∅, true⟩ "on" .text
          (.text "") ∅).toOption.bind (·.variant)) = [some "0", some "-0"] := by decide +kernel

end Answering

end FeatureFlags
