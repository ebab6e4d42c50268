import FeatureFlags.Evaluation.Context
import FeatureFlags.Proofs.Collections.KeyMap
import FeatureFlags.Targeting.Evaluation

/-!
# Proofs/Evaluation/Context — the context that a rule sees, layer by layer

A context put over another says what stands, with one exception: when only the base has a targeting
key, that key goes before an attribute of the same name in the upper context (`Context.Hides`).
`Context.toObject_overlay_iff` says that there is no other, `Targeting.data_overlay` what a rule finds
under each key.
-/

namespace FeatureFlags

namespace Context

variable {base upper : Context}

/-- What rules see under a key. -/
theorem get?_toObject (c : Context) (key : String) :
    c.toObject.get? key =
      (if key = targetingKeyName then c.targetingKey.map .str else none).or
        (c.attributes.get? key) := by
  rw [toObject]
  cases c.targetingKey with
  | none => simp
  | some k => by_cases hkey : key = targetingKeyName <;> simp [hkey, eq_comm]

/-- **Putting one context over another is associative.** -/
theorem overlay_assoc (a b c : Context) : (a.overlay b).overlay c = a.overlay (b.overlay c) := by
  simp only [overlay, KeyMap.overlay_assoc, Option.orElse_eq_orElse, Option.orElse_eq_or,
    Option.or_assoc]

/-- Only the base has a targeting key. -/
def KeepsKey (base upper : Context) : Prop := base.targetingKey.isSome ∧ upper.targetingKey = none

instance : Decidable (KeepsKey base upper) := inferInstanceAs (Decidable (_ ∧ _))

/-- **The targeting key of the base goes before another attribute of that name.** -/
def Hides (base upper : Context) : Prop :=
  ∃ key said, base.targetingKey = some key ∧ upper.targetingKey = none ∧
    upper.attributes.get? targetingKeyName = some said ∧ said ≠ .str key

/-- **What rules see under a key of two layers**: what the upper one says, or else the base, except for a
targeting key that only the base has. -/
theorem get?_toObject_overlay (base upper : Context) (key : String) :
    (base.overlay upper).toObject.get? key =
      if key = targetingKeyName ∧ KeepsKey base upper then base.targetingKey.map .str
      else (upper.toObject.get? key).or (base.toObject.get? key) := by
  simp only [get?_toObject, KeepsKey, overlay, KeyMap.get?_overlay]
  by_cases hkey : key = targetingKeyName
  · cases hupper : upper.targetingKey with
    | some k => simp [hkey]
    | none => cases base.targetingKey <;> simp [hkey]
  · simp [hkey]

/-- **Two layers are the overlay of what each shows**, unless the base hides an attribute. -/
theorem toObject_overlay_iff :
    (base.overlay upper).toObject = base.toObject.overlay upper.toObject ↔ ¬ Hides base upper := by
  constructor
  · rintro h ⟨key, said, hbase, hupper, hsaid, hne⟩
    have hget := congrArg (·.get? targetingKeyName) h
    simp only [get?_toObject_overlay, KeyMap.get?_overlay, get?_toObject upper, KeepsKey, hbase, hupper,
      hsaid] at hget
    exact hne (by simpa using hget.symm)
  · intro h
    refine KeyMap.ext_get? fun key => ?_
    rw [get?_toObject_overlay, KeyMap.get?_overlay]
    split
    · next hkeeps =>
      obtain ⟨rfl, hbase, hupper⟩ := hkeeps
      obtain ⟨key, hkey⟩ := Option.isSome_iff_exists.mp hbase
      rw [get?_toObject, get?_toObject, hkey, hupper]
      cases hsaid : upper.attributes.get? targetingKeyName with
      | none => simp
      | some said =>
        have hsame : said = .str key :=
          Classical.not_not.mp fun hne => h ⟨key, said, hkey, hupper, hsaid, hne⟩
        simp [hsame]
    · rfl

end Context

namespace Targeting

/-- The reserved member replaces an attribute of its name. -/
theorem member?_data (flagKey : String) (time : Int) (attributes : KeyMap Json) (name : String) :
    (data flagKey time attributes).member? name =
      if name = propertiesKey then some (properties flagKey time) else attributes.get? name := by
  have hget := KeyMap.get?_insert attributes propertiesKey name (properties flagKey time)
  simp only [eq_comm (a := propertiesKey)] at hget
  exact hget

end Targeting

/-- **The law of layers.**  In the data of a rule the reserved member is the injected one; under every
other key stands what the upper context shows there, or else what the base shows, except that the
targeting key of the base stands if the upper context has none.  So what two layers show is the overlay
of what each shows unless the base has a targeting key, and the upper context only an attribute of that
name with another value.  Layers can be put together in any grouping. -/
theorem Targeting.data_overlay (flagKey : String) (time : Int) (base upper : Context) :
    (∀ name, (data flagKey time (base.overlay upper).toObject).member? name =
        if name = propertiesKey then some (properties flagKey time)
        else if name = Context.targetingKeyName ∧ base.KeepsKey upper then base.targetingKey.map .str
        else (upper.toObject.get? name).or (base.toObject.get? name)) ∧
      ((base.overlay upper).toObject = base.toObject.overlay upper.toObject ↔ ¬ base.Hides upper) ∧
      ∀ top, (base.overlay upper).overlay top = base.overlay (upper.overlay top) := by
  refine ⟨fun name => ?_, Context.toObject_overlay_iff, Context.overlay_assoc base upper⟩
  rw [member?_data, Context.get?_toObject_overlay]

/-- A caller's attribute that does not stand. -/
example : (Targeting.data "flag" 0 (Context.overlay ⟨some "base", ∅⟩
      ⟨none, (∅ : KeyMap Json).insert Context.targetingKeyName (.str "caller")⟩).toObject).member?
    Context.targetingKeyName = some (.str "base") := rfl

end FeatureFlags
