import FeatureFlags.Proofs.Numeric.Monotone
import Mathlib.Algebra.Order.Ring.Pow
import Mathlib.Tactic.FieldSimp
import Mathlib.Tactic.Linarith

/-!
# Proofs/Numeric/Precision — how much one rounding changes a value

A quotient of at least `2 ^ 52` units is rounded to a word with 53 significant bits, so of two values,
the quotient and the rounded one, each is at least `kept` of the other: all but one part in `2 ^ 53`
(`kept_mul_le_units`, `kept_mul_units_le`).  So is every whole number of units, which is rounded exactly
where it has no 53 bits.
-/

namespace FeatureFlags.Binary64

variable {num den : Nat}

/-- **The part of a value that one rounding keeps.** -/
def kept : ℚ := 1 - 1 / 2 ^ 53

theorem kept_nonneg : 0 ≤ kept := by norm_num [kept]

theorem kept_le_one : kept ≤ 1 := by norm_num [kept]

/-- **Many roundings** keep all but as many parts. -/
theorem one_sub_le_kept_pow (count : Nat) : 1 - count / 2 ^ 53 ≤ kept ^ count := by
  have h := one_add_mul_le_pow (a := (-(1 / 2 ^ 53) : ℚ)) (by norm_num) count
  calc (1 - count / 2 ^ 53 : ℚ) = 1 + count * -(1 / 2 ^ 53) := by ring
    _ ≤ (1 + -(1 / 2 ^ 53)) ^ count := h
    _ = kept ^ count := by rw [kept, sub_eq_add_neg]

/-- The rounding of a quotient is **fine**: the quotient has 53 significant bits, or is whole. -/
def IsFine (num den : Nat) : Prop := den = 1 ∨ 2 ^ 52 * den ≤ num

/-- The units of a rounded quotient are its significand, shifted. -/
theorem units_bitsOfUnits (hden : 0 < den) (hfin : bitsOfUnits num den < infinityBits) :
    unitsOfBits (bitsOfUnits num den) =
      roundHalfEven num (den * 2 ^ shiftOf num den) * 2 ^ shiftOf num den := by
  have hbits : bitsOfUnits num den = shiftOf num den * 2 ^ 52 +
      roundHalfEven num (den * 2 ^ shiftOf num den) := by
    rw [bitsOfUnits_eq_min] at hfin ⊢
    omega
  rw [hbits]
  refine unitsOfBits_shifted ?_ (roundHalfEven_le num hden)
  rcases Nat.eq_zero_or_pos (shiftOf num den) with hzero | hpos
  · exact .inl hzero
  · exact .inr (le_roundHalfEven num hden hpos)

/-- **A fine rounding** is exact, or its significand has all 53 bits. -/
theorem IsFine.cases (h : IsFine num den) (hden : 0 < den)
    (hfin : bitsOfUnits num den < infinityBits) :
    unitsOfBits (bitsOfUnits num den) * den = num ∨
      2 ^ 52 ≤ roundHalfEven num (den * 2 ^ shiftOf num den) := by
  rcases Nat.eq_zero_or_pos (shiftOf num den) with hzero | hpos
  · rw [units_bitsOfUnits hden hfin, hzero, Nat.pow_zero, Nat.mul_one, Nat.mul_one]
    rcases h with rfl | hle
    · left
      have hexact := roundHalfEven_mul num Nat.one_pos
      rw [Nat.mul_one] at hexact ⊢
      exact hexact
    · right
      rw [← roundHalfEven_mul (2 ^ 52) hden]
      exact roundHalfEven_mono hden hden (Nat.mul_le_mul_right _ hle)
  · exact .inr (le_roundHalfEven num hden hpos)

/-- **What is rounded and what it is rounded to** differ by one part in `2 ^ 53` at most. -/
theorem IsFine.bounds (h : IsFine num den) (hden : 0 < den)
    (hfin : bitsOfUnits num den < infinityBits) :
    2 ^ 53 * num ≤ (2 ^ 53 + 1) * (unitsOfBits (bitsOfUnits num den) * den) ∧
      2 ^ 53 * (unitsOfBits (bitsOfUnits num den) * den) ≤
        2 ^ 53 * num + unitsOfBits (bitsOfUnits num den) * den := by
  rcases h.cases hden hfin with hexact | hbits
  · rw [hexact]
    omega
  · obtain ⟨hlow, hhigh, -⟩ := isRounded_roundHalfEven num
      (show 0 < den * 2 ^ shiftOf num den by positivity)
    have hvalue : unitsOfBits (bitsOfUnits num den) * den =
        roundHalfEven num (den * 2 ^ shiftOf num den) * (den * 2 ^ shiftOf num den) := by
      rw [units_bitsOfUnits hden hfin]
      ring
    have hstep := Nat.mul_le_mul_right (den * 2 ^ shiftOf num den) hbits
    rw [hvalue]
    generalize den * 2 ^ shiftOf num den = step at *
    generalize roundHalfEven num step = q at *
    rw [Nat.mul_assoc] at hlow hhigh
    omega

/-- **A rounding keeps almost all** … -/
theorem kept_mul_le_units (h : IsFine num den) (hden : 0 < den)
    (hfin : bitsOfUnits num den < infinityBits) :
    kept * (num / den) ≤ unitsOfBits (bitsOfUnits num den) := by
  have hbound : (2 ^ 53 * num : ℚ) ≤ (2 ^ 53 + 1) * (unitsOfBits (bitsOfUnits num den) * den) := by
    exact_mod_cast (h.bounds hden hfin).1
  have hpos : (0 : ℚ) < den := by exact_mod_cast hden
  have hunits : (0 : ℚ) ≤ unitsOfBits (bitsOfUnits num den) * den :=
    mul_nonneg (Nat.cast_nonneg _) hpos.le
  rw [← mul_div_assoc, div_le_iff₀ hpos, kept]
  linarith

/-- … and adds almost nothing. -/
theorem kept_mul_units_le (h : IsFine num den) (hden : 0 < den)
    (hfin : bitsOfUnits num den < infinityBits) :
    kept * unitsOfBits (bitsOfUnits num den) ≤ num / den := by
  have hbound : (2 ^ 53 * (unitsOfBits (bitsOfUnits num den) * den) : ℚ) ≤
      2 ^ 53 * num + unitsOfBits (bitsOfUnits num den) * den := by
    exact_mod_cast (h.bounds hden hfin).2
  have hpos : (0 : ℚ) < den := by exact_mod_cast hden
  rw [le_div_iff₀ hpos, kept]
  linarith

end FeatureFlags.Binary64
