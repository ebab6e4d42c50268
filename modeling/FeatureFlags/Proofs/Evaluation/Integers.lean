import FeatureFlags.Evaluation.Value
import FeatureFlags.Proofs.Numeric.Value

/-!
# Proofs/Evaluation/Integers — numbers asked for as integers

Every number can be had as an integer: it is cut toward zero, exactly, as long as the result fits 64 bits,
and beyond that it is the nearest integer that does (`FlagValue.coerce_integer`).
-/

namespace FeatureFlags.FlagValue

open Binary64

variable {n : Number}

/-- **The integer of a number** is its value, cut toward zero and clamped. -/
theorem integerOf_eq (h : n.Readable) :
    integerOf n = max leastInt64 (min greatestInt64 (towardZero n.value)) := by
  cases n with
  | double x =>
    have hnan : x.isNaN = false := isNaN_of_isFinite h
    change x.toInt64 = _
    rw [toInt64, hnan, if_neg Bool.false_ne_true, truncate_eq]
    rfl
  | int i =>
    rw [Number.value, towardZero_intCast, integerOf, Number.int64?]
    by_cases hfits : Number.isInt64 i = true
    · obtain ⟨hlow, hhigh⟩ := Number.isInt64_iff.mp hfits
      rw [if_pos hfits, min_eq_right hhigh, max_eq_right hlow]
    · -- such an integer is cut as a double, which lies beyond the bound like it
      obtain ⟨hi, hfin, j, hj, hbeyond⟩ := Number.exists_value_of_not_isInt64 h hfits
      rw [if_neg hfits, Number.toDouble, toInt64, isNaN_of_isFinite hfin, if_neg Bool.false_ne_true,
        truncate_eq, hj, towardZero_intCast, min_eq_left hbeyond.le, min_eq_left hi.le]

/-- **A number asked for as an integer** is cut toward zero if the result fits 64 bits; a number beyond
them is the nearest integer that fits. -/
theorem coerce_integer (h : n.Readable) :
    (leastInt64 ≤ towardZero n.value → towardZero n.value ≤ greatestInt64 →
        coerce .integer (.num n) = some (.integer (towardZero n.value))) ∧
      (towardZero n.value < leastInt64 → coerce .integer (.num n) = some (.integer leastInt64)) ∧
      (greatestInt64 < towardZero n.value → coerce .integer (.num n) = some (.integer greatestInt64)) := by
  have hcoerce : coerce .integer (.num n) = some (.integer (integerOf n)) := rfl
  rw [hcoerce, integerOf_eq h]
  refine ⟨fun hlow hhigh => ?_, fun hlow => ?_, fun hhigh => ?_⟩
  · rw [min_eq_right hhigh, max_eq_right hlow]
  · rw [min_eq_right (hlow.le.trans (by decide)), max_eq_left hlow.le]
  · rw [min_eq_left hhigh.le, max_eq_right (by decide)]

/-- The greatest unsigned integer comes out as the greatest signed one. -/
theorem coerce_integer_unsigned :
    (Number.int 18446744073709551615).Readable ∧
      greatestInt64 < towardZero (Number.int 18446744073709551615).value ∧
      coerce .integer (.num (.int 18446744073709551615)) = some (.integer greatestInt64) := by
  have hreadable : (Number.int 18446744073709551615).Readable := .inr (by decide)
  have hbeyond : greatestInt64 < towardZero (Number.int 18446744073709551615).value := by
    rw [Number.value, towardZero_intCast]
    decide
  exact ⟨hreadable, hbeyond, (coerce_integer hreadable).2.2 hbeyond⟩

/-- So does `1e300`. -/
example : integerOf (.double ⟨0x7E37E43C8800759C⟩) = greatestInt64 := by decide +kernel

end FeatureFlags.FlagValue
