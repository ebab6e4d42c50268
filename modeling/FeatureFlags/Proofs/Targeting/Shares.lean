import FeatureFlags.Proofs.Collections.Results
import FeatureFlags.Targeting.Fractional
import Mathlib.Algebra.Order.BigOperators.Group.List
import Mathlib.Algebra.Order.Ring.Nat
import Mathlib.Data.List.Forall2

/-!
# Proofs/Targeting/Shares — when a split serves a variant

`Splits` says what arguments a split needs: a key to divide users by and a row of entries, each a name
and perhaps a weight.  A split that has them serves one of the variants listed if some weight is positive,
as long as their sum fits in 64 bits (`evaluate_of_fits`); otherwise it breaks off
(`evaluate_of_overflow`).  Without them it serves none (`evaluate_of_improper`).  `evaluate_answers` puts
these together.
-/

namespace FeatureFlags.Fractional

variable {args entries : List Json} {data : Json} {key : String} {shares : List Share}

/-! ## Proper splits -/

/-- **The key that users are divided by**: a text in front of the entries, or else the targeting key. -/
inductive KeyedBy (data : Json) : List Json → String → List Json → Prop
  | text (key : String) (entries : List Json) : KeyedBy data (.str key :: entries) key entries
  | targetingKey {key : String} {entries : List Json} (hfront : ∀ s, entries.head? ≠ some (.str s))
      (hkey : data.member? Context.targetingKeyName = some (.str key)) :
      KeyedBy data entries key entries

/-- **An entry tells a share**: a row of a name and a weight of 64 bits, or of a name only, for the
weight one.  What follows the weight does not matter. -/
inductive Tells : Json → Share → Prop
  | name (variant : String) : Tells (.arr [.str variant]) ⟨variant, 1⟩
  | weight (variant : String) (weight : Nat) (hweight : weight < 2 ^ 64) (rest : List Json) :
      Tells (.arr (.str variant :: .int weight :: rest)) ⟨variant, weight⟩

/-- **The arguments of a proper split**: a key, and at least one entry, all of which tell shares. -/
structure Splits (args : List Json) (data : Json) (key : String) (shares : List Share) : Prop where
  proper : ∃ entries, KeyedBy data args key entries ∧ List.Forall₂ Tells entries shares
  ne_nil : shares ≠ []

theorem Tells.weight_lt {entry : Json} {s : Share} (h : Tells entry s) : s.weight < 2 ^ 64 := by
  cases h with
  | name => exact Nat.one_lt_two_pow (by decide)
  | weight _ _ hweight => exact hweight

/-- The weights of a proper split have 64 bits. -/
theorem Splits.weight_lt (h : Splits args data key shares) : ∀ s ∈ shares, s.weight < 2 ^ 64 := by
  obtain ⟨⟨entries, -, hentries⟩, -⟩ := h
  induction hentries with
  | nil => exact fun _ hs => nomatch hs
  | cons htells _ ih => exact List.forall_mem_cons.mpr ⟨htells.weight_lt, ih⟩

theorem string?_eq_some_iff {v : Json} {s : String} : v.string? = some s ↔ v = .str s := by
  cases v <;> simp [Json.string?]

theorem bucketingKey?_eq_some_iff :
    bucketingKey? args data = some (key, entries) ↔ KeyedBy data args key entries := by
  have htargeting : ((data.member? Context.targetingKeyName).bind Json.string?).map (·, args) =
        some (key, entries) ↔
      data.member? Context.targetingKeyName = some (.str key) ∧ args = entries := by
    simp [Option.map_eq_some_iff, Option.bind_eq_some_iff, string?_eq_some_iff]
  rw [bucketingKey?.eq_def]
  split
  · rename_i s rest
    constructor
    · intro h
      obtain ⟨rfl, rfl⟩ := Prod.mk.inj (Option.some.inj h)
      exact .text _ _
    · intro h
      cases h with
      | text => rfl
      | targetingKey hfront _ => exact absurd rfl (hfront s)
  · rename_i hfront
    rw [htargeting]
    constructor
    · rintro ⟨hkey, rfl⟩
      refine .targetingKey ?_ hkey
      rintro s hs
      obtain ⟨rest, rfl⟩ := List.head?_eq_some_iff.mp hs
      exact hfront s rest rfl
    · intro h
      cases h with
      | text => exact absurd rfl (hfront _ _)
      | targetingKey _ hkey => exact ⟨hkey, rfl⟩

theorem uint64?_eq_some_iff {n : Number} {weight : Nat} :
    n.uint64? = some weight ↔ n = .int weight ∧ weight < 2 ^ 64 := by
  cases n with
  | double x => simp [Number.uint64?]
  | int i =>
    have hgreatest : Number.greatestUInt64 = 2 ^ 64 - 1 := rfl
    simp only [Number.uint64?, Number.isUInt64, hgreatest, Bool.and_eq_true, decide_eq_true_eq,
      Option.ite_none_right_eq_some, Option.some.injEq, Number.int.injEq]
    omega

theorem ofJson?_eq_some_iff {entry : Json} {share : Share} :
    Share.ofJson? entry = some share ↔ Tells entry share := by
  rw [Share.ofJson?.eq_def]
  constructor
  · intro h
    split at h
    · rename_i variant rest
      split at h
      · obtain rfl := Option.some.inj h
        exact .name variant
      · obtain ⟨weight, hweight, rfl⟩ := Option.map_eq_some_iff.mp h
        obtain ⟨rfl, hlt⟩ := uint64?_eq_some_iff.mp hweight
        exact .weight variant weight hlt _
      · cases h
    · cases h
  · rintro (variant | ⟨variant, weight, hweight, rest⟩)
    · rfl
    · exact congrArg (Option.map _) (uint64?_eq_some_iff.mpr ⟨rfl, hweight⟩)

theorem shares?_eq_some_iff :
    shares? entries = some shares ↔ List.Forall₂ Tells entries shares ∧ shares ≠ [] := by
  have hrow : entries.mapM Share.ofJson? = some shares ↔ List.Forall₂ Tells entries shares := by
    simp only [mapM_eq_some_iff, ofJson?_eq_some_iff]
  cases entries with
  | nil =>
    simp only [shares?, List.isEmpty_nil, if_true, reduceCtorEq, List.forall₂_nil_left_iff, false_iff,
      not_and, not_not, imp_self]
  | cons entry rest =>
    rw [shares?, List.isEmpty_cons, if_neg Bool.false_ne_true, hrow]
    refine ⟨fun h => ⟨h, ?_⟩, And.left⟩
    rintro rfl
    cases h

/-! ## What a split serves -/

/-- The sum of the weights, of any size. -/
def weightSum (shares : List Share) : Nat := (shares.map Share.weight).sum

theorem weightSum_cons (s : Share) (shares : List Share) :
    weightSum (s :: shares) = s.weight + weightSum shares := by
  rw [weightSum, weightSum, List.map_cons, List.sum_cons]

/-- Weights are added one by one, up to the first sum that does not fit. -/
theorem foldlM_addWeight (shares : List Share) {start : Nat} (hstart : start < 2 ^ 64) :
    shares.foldlM addWeight start =
      if start + weightSum shares < 2 ^ 64 then .ok (start + weightSum shares) else .error .weights := by
  induction shares generalizing start with
  | nil => rw [if_pos (by simpa [weightSum] using hstart)]; rfl
  | cons s rest ih =>
    rw [List.foldlM_cons, addWeight, Nat.pow_eq, weightSum_cons, ← Nat.add_assoc]
    by_cases hsum : start + s.weight < 2 ^ 64
    · rw [if_pos hsum]
      exact ih hsum
    · rw [if_neg hsum, if_neg (by omega)]
      rfl

/-- **The sum breaks off exactly if it does not fit in 64 bits.** -/
theorem totalWeight_eq (shares : List Share) :
    totalWeight shares =
      if weightSum shares < 2 ^ 64 then .ok (weightSum shares) else .error .weights := by
  have hfold := @foldlM_addWeight shares 0 (by decide)
  rwa [Nat.zero_add] at hfold

theorem weightSum_eq_zero_iff : weightSum shares = 0 ↔ ∀ s ∈ shares, s.weight = 0 := by
  rw [weightSum, List.sum_eq_zero_iff]
  exact List.forall_mem_map

theorem mem_of_walk {point upper : Binary64} {total : Nat} {name : String}
    (h : walk point total upper shares = some name) : ∃ s ∈ shares, s.variant = name := by
  induction shares generalizing upper with
  | nil => cases h
  | cons s rest ih =>
    rw [walk] at h
    split at h
    · exact ⟨s, List.mem_cons_self, Option.some.inj h⟩
    · obtain ⟨t, ht, hname⟩ := ih h
      exact ⟨t, List.mem_cons_of_mem _ ht, hname⟩

/-- **A point always falls to a share** when the weights add up to something. -/
theorem exists_pick (point : Binary64) {total : Nat} (hne : shares ≠ []) (htotal : total ≠ 0) :
    ∃ s ∈ shares, pick point total shares = some s.variant := by
  rw [pick, if_neg htotal]
  cases hwalk : walk point total .zero shares with
  | some name =>
    obtain ⟨s, hs, rfl⟩ := mem_of_walk hwalk
    exact ⟨s, hs, rfl⟩
  | none =>
    refine ⟨shares.getLast hne, List.getLast_mem hne, ?_⟩
    rw [List.getLast?_eq_some_getLast hne]
    rfl

theorem Splits.shares?_eq (h : Splits args data key shares) :
    ∃ entries, bucketingKey? args data = some (key, entries) ∧ shares? entries = some shares := by
  obtain ⟨⟨entries, hkey, hentries⟩, hne⟩ := h
  exact ⟨entries, bucketingKey?_eq_some_iff.mpr hkey, shares?_eq_some_iff.mpr ⟨hentries, hne⟩⟩

/-- **A proper split** asks for the share of the flag's and the user's text. -/
theorem evaluate_of_splits (h : Splits args data key shares) :
    evaluate args data =
      (select (flagKey data ++ key) shares).map fun served => (served.map Json.str).getD .null := by
  obtain ⟨entries, hkey, hshares⟩ := h.shares?_eq
  rw [evaluate, hkey]
  simp only [hshares]
  refine congrArg (Except.map · _) (funext fun served => ?_)
  cases served <;> rfl

/-- … and serves it, if the sum of the weights fits. -/
theorem evaluate_of_fits (h : Splits args data key shares) (hsum : weightSum shares < 2 ^ 64) :
    evaluate args data = .ok
      (((pick (bucket (flagKey data ++ key)) (weightSum shares) shares).map Json.str).getD .null) := by
  rw [evaluate_of_splits h, select, totalWeight_eq, if_pos hsum]
  rfl

/-- If the sum does not fit, the split breaks off. -/
theorem evaluate_of_overflow (h : Splits args data key shares) (hsum : 2 ^ 64 ≤ weightSum shares) :
    evaluate args data = .error .weights := by
  rw [evaluate_of_splits h, select, totalWeight_eq, if_neg (Nat.not_lt.mpr hsum)]
  rfl

theorem evaluate_of_improper (h : ¬ ∃ key shares, Splits args data key shares) :
    evaluate args data = .ok .null := by
  rw [evaluate]
  split
  · rfl
  · rename_i key entries hkey
    split
    · rfl
    · rename_i shares hshares
      obtain ⟨hentries, hne⟩ := shares?_eq_some_iff.mp hshares
      exact absurd ⟨key, shares, ⟨entries, bucketingKey?_eq_some_iff.mp hkey, hentries⟩, hne⟩ h

/-- **When a split answers**, and with what. -/
structure AnswersIfProper (args : List Json) (data : Json) : Prop where
  /-- With the name of an entry, if the arguments are proper and some weight is positive, as long as the
  sum fits in 64 bits; … -/
  named : ∀ key shares, Splits args data key shares → (∃ s ∈ shares, 0 < s.weight) →
    weightSum shares < 2 ^ 64 → ∃ s ∈ shares, evaluate args data = .ok (.str s.variant)
  /-- … with null, if no weight is positive … -/
  weightless : ∀ key shares, Splits args data key shares → (∀ s ∈ shares, s.weight = 0) →
    evaluate args data = .ok .null
  /-- … or the arguments are not proper; … -/
  improper : (¬ ∃ key shares, Splits args data key shares) → evaluate args data = .ok .null
  /-- … and with nothing at all, if the sum does not fit: then it breaks off. -/
  overflow : ∀ key shares, Splits args data key shares →
    (2 ^ 64 ≤ weightSum shares ↔ evaluate args data = .error .weights)

/-- **The law of answers.** -/
theorem evaluate_answers (args : List Json) (data : Json) : AnswersIfProper args data where
  named key shares h hpositive hsum := by
    have hne : weightSum shares ≠ 0 := by
      rw [ne_eq, weightSum_eq_zero_iff]
      obtain ⟨s, hs, hpos⟩ := hpositive
      exact fun hzero => hpos.ne' (hzero s hs)
    obtain ⟨s, hs, hpick⟩ := exists_pick (bucket (flagKey data ++ key)) h.ne_nil hne
    refine ⟨s, hs, ?_⟩
    rw [evaluate_of_fits h hsum, hpick]
    rfl
  weightless key shares h hzero := by
    have hsum : weightSum shares = 0 := weightSum_eq_zero_iff.mpr hzero
    rw [evaluate_of_fits h (hsum ▸ by decide), hsum]
    rfl
  improper := evaluate_of_improper
  overflow key shares h := by
    refine ⟨evaluate_of_overflow h, fun hbroken => ?_⟩
    by_contra hsum
    rw [evaluate_of_fits h (Nat.not_le.mp hsum)] at hbroken
    cases hbroken

/-- Two weights whose sum is `2 ^ 64`: nobody is served, not even null. -/
example : evaluate [.str "k", .arr [.str "a", .int 18446744073709551615], .arr [.str "b", .int 1]] .null =
    .error .weights := by rfl

end FeatureFlags.Fractional
