import FeatureFlags.Proofs.Collections.KeyMap
import FeatureFlags.Proofs.Numeric.Fraction
import FeatureFlags.Sync.Struct

/-!
# Proofs/Sync/StructMetadata — what the values of a struct become as metadata

A struct keeps its booleans, its texts and its numbers as metadata, and nothing else.  A number becomes
the integer that it is equal to, if it is whole and its magnitude below `2 ^ 63`, and stays the double
that it is, if not (`StructValue.Becomes`); so no conversion cuts or clamps a value
(`Struct.toMetadata_exact`).
-/

namespace FeatureFlags

open Binary64

/-- **A whole number of magnitude below `2 ^ 63`.** -/
structure Binary64.IsShortWhole (x : Binary64) : Prop where
  isFinite : x.isFinite = true
  whole : ∃ i : ℤ, x.value = i
  lt : |x.value| < 2 ^ 63

namespace StructValue

/-- **A value of a scalar kind.** -/
inductive IsScalar : StructValue → Prop
  | boolean (b : Bool) : IsScalar (.boolean b)
  | text (s : String) : IsScalar (.text s)
  | number (x : Binary64) : IsScalar (.number x)

/-- **The scalar that a value becomes.** -/
inductive Becomes : StructValue → Scalar → Prop
  | boolean (b : Bool) : Becomes (.boolean b) (.boolean b)
  | text (s : String) : Becomes (.text s) (.text s)
  | integer {x : Binary64} {i : ℤ} (h : x.IsShortWhole) (hvalue : x.value = i) :
      Becomes (.number x) (.integer i)
  | double {x : Binary64} (h : ¬ x.IsShortWhole) : Becomes (.number x) (.double x)

variable {v : StructValue} {a : Scalar} {x : Binary64} {i : ℤ}

/-! ## Numbers -/

/-- The test that a number becomes an integer by. -/
theorem isShortWhole_iff :
    (x.fract.eq zero && x.abs.lt (ofInt greatestInt64)) = true ↔ x.IsShortWhole := by
  rw [Bool.and_eq_true, fract_eq_zero_iff]
  constructor
  · rintro ⟨hwhole, hlt⟩
    have hfin : x.isFinite = true := Bool.and_elim_left hwhole
    exact ⟨hfin, (isWhole_iff hfin).mp hwhole, (abs_lt_greatestInt64_iff hfin).mp hlt⟩
  · rintro ⟨hfin, hwhole, hlt⟩
    exact ⟨(isWhole_iff hfin).mpr hwhole, (abs_lt_greatestInt64_iff hfin).mpr hlt⟩

/-- **A short whole number is converted exactly.** -/
theorem scalarOfNumber_of_isShortWhole (h : x.IsShortWhole) (hvalue : x.value = i) :
    scalarOfNumber x = .integer i := by
  obtain ⟨hclamp, hcut⟩ := toInt64_of_value h.isFinite hvalue h.lt
  rw [scalarOfNumber, if_pos (isShortWhole_iff.mpr h), hclamp, hcut]

theorem scalarOfNumber_of_not_isShortWhole (h : ¬ x.IsShortWhole) : scalarOfNumber x = .double x := by
  rw [scalarOfNumber, if_neg (mt isShortWhole_iff.mp h)]

theorem becomes_scalarOfNumber (x : Binary64) : Becomes (.number x) (scalarOfNumber x) := by
  by_cases h : x.IsShortWhole
  · obtain ⟨i, hvalue⟩ := h.whole
    rw [scalarOfNumber_of_isShortWhole h hvalue]
    exact .integer h hvalue
  · rw [scalarOfNumber_of_not_isShortWhole h]
    exact .double h

/-! ## Values -/

theorem scalar?_eq_some_iff : v.scalar? = some a ↔ Becomes v a := by
  constructor
  · intro h
    cases v with
    | boolean b =>
      obtain rfl := Option.some.inj h
      exact .boolean b
    | text s =>
      obtain rfl := Option.some.inj h
      exact .text s
    | number x =>
      obtain rfl := Option.some.inj h
      exact becomes_scalarOfNumber x
    | _ => cases h
  · rintro (b | s | ⟨hshort, hvalue⟩ | hnot)
    · rfl
    · rfl
    · exact congrArg some (scalarOfNumber_of_isShortWhole hshort hvalue)
    · exact congrArg some (scalarOfNumber_of_not_isShortWhole hnot)

/-- **A value of a scalar kind becomes a scalar**, and no other does. -/
theorem isScalar_iff : v.IsScalar ↔ v.scalar?.isSome = true := by
  constructor
  · rintro (b | s | x) <;> rfl
  · intro h
    cases v with
    | boolean b => exact .boolean b
    | text s => exact .text s
    | number x => exact .number x
    | _ => cases h

end StructValue

/-! ## Structs -/

namespace Struct

variable {s : Struct} {name : String} {a : Scalar}

/-- **What a struct has under a name**: a later field stands for an earlier one. -/
def field? (s : Struct) (name : String) : Option StructValue := valueAt? name s.reverse

theorem get?_toMetadata (s : Struct) (name : String) :
    s.toMetadata.get? name = (s.field? name).bind StructValue.scalar? := by
  rw [toMetadata, KeyMap.get?_filterMap, KeyMap.get?_ofList, field?]

theorem get?_toMetadata_eq_some_iff :
    s.toMetadata.get? name = some a ↔ ∃ v, s.field? name = some v ∧ v.Becomes a := by
  rw [get?_toMetadata, Option.bind_eq_some_iff]
  simp only [StructValue.scalar?_eq_some_iff]

theorem contains_toMetadata_iff :
    s.toMetadata.contains name = true ↔ ∃ v, s.field? name = some v ∧ v.IsScalar := by
  rw [KeyMap.contains, get?_toMetadata, Option.isSome_bind, Option.any_eq_true]
  simp only [StructValue.isScalar_iff]

/-- **The metadata of a struct** has the names of its booleans, texts and numbers, and what these become:
booleans and texts stay as they are, and so do the numbers but for the whole ones of magnitude below
`2 ^ 63`, which become the integers that they are equal to.  An integer in it was converted from a number
without being cut or clamped. -/
theorem toMetadata_exact (s : Struct) :
    (∀ name, s.toMetadata.contains name = true ↔ ∃ v, s.field? name = some v ∧ v.IsScalar) ∧
      (∀ name a, s.toMetadata.get? name = some a ↔ ∃ v, s.field? name = some v ∧ v.Becomes a) ∧
      ∀ name i, s.toMetadata.get? name = some (.integer i) →
        ∃ x, s.field? name = some (.number x) ∧ x.toInt64 = i ∧ x.truncate = i ∧ x.value = i := by
  refine ⟨fun name => contains_toMetadata_iff, fun name a => get?_toMetadata_eq_some_iff, ?_⟩
  intro name i hinteger
  obtain ⟨v, hfield, hv⟩ := get?_toMetadata_eq_some_iff.mp hinteger
  cases hv with
  | @integer x _ hshort hvalue =>
    obtain ⟨hclamp, hcut⟩ := toInt64_of_value hshort.isFinite hvalue hshort.lt
    exact ⟨x, hfield, hclamp.trans hcut, hcut, hvalue⟩

/-- Around `2 ^ 63`: the greatest double below it, itself, and its negation; then the negative zero, an
infinity and a NaN. -/
example : ([0x43DFFFFFFFFFFFFF, 0x43E0000000000000, 0xC3E0000000000000, 0x8000000000000000,
    0x7FF0000000000000, 0x7FF0000000000001].map fun word => StructValue.scalarOfNumber ⟨word⟩) =
    [.integer 9223372036854774784, .double ⟨0x43E0000000000000⟩, .double ⟨0xC3E0000000000000⟩,
      .integer 0, .double ⟨0x7FF0000000000000⟩, .double ⟨0x7FF0000000000001⟩] := by
  decide +kernel

end Struct

end FeatureFlags
