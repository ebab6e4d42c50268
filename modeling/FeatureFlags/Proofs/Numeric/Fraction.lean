import FeatureFlags.Proofs.Numeric.Value

/-!
# Proofs/Numeric/Fraction — doubles without a fractional part

The fractional part of a double is the rounded difference from its whole part.  A difference of finite
doubles is never rounded to zero unless they are equal (`Binary64.sub_eq_zero_iff`), and the fractional
part of an infinity is a NaN, which is equal to nothing.  So the fractional part is zero exactly for the
whole numbers (`Binary64.fract_eq_zero_iff`).
-/

namespace FeatureFlags.Binary64

variable {x y : Binary64} {n : Nat}

attribute [local irreducible] unitsPerOne

/-! ## Zero -/

theorem bitsOfUnits_eq_zero_iff : bitsOfUnits n 1 = 0 ↔ n = 0 := by
  constructor
  · intro h
    have hone : unitsOfBits 1 = 1 := rfl
    by_contra hne
    have hle : bitsOfUnits (unitsOfBits 1) 1 ≤ bitsOfUnits n 1 :=
      bitsOfUnits_mono Nat.one_pos Nat.one_pos (by omega)
    rw [bitsOfUnits_units (by decide), h] at hle
    omega
  · rintro rfl
    exact bitsOfUnits_zero 1

theorem eq_zero_iff : x.eq zero = true ↔ x.isZero = true := by
  refine ⟨fun h => (isZero_of_eq h).trans rfl, fun h => ?_⟩
  have hbits : x.magnitudeBits = 0 := beq_iff_eq.mp h
  refine eq_iff.mpr ⟨?_, rfl, ?_⟩
  · rw [isNaN, hbits]
    rfl
  · rw [signedUnits, isZero_iff.mp h, Int.natCast_zero, neg_zero, ite_self]
    rfl

/-! ## Negation -/

section Negation

variable (h : x.isNaN = false)
include h

theorem magnitudeBits_neg : x.neg.magnitudeBits = x.magnitudeBits :=
  magnitudeBits_ofSignMagnitude _ (not_lt.mp (of_decide_eq_false h))

theorem isNegative_neg : x.neg.isNegative = !x.isNegative :=
  isNegative_ofSignMagnitude _ (not_lt.mp (of_decide_eq_false h))

theorem isNaN_neg : x.neg.isNaN = false := by
  rw [isNaN, magnitudeBits_neg h, ← isNaN, h]

theorem isFinite_neg : x.neg.isFinite = x.isFinite := by
  rw [isFinite, magnitudeBits_neg h, ← isFinite]

theorem isInfinite_neg : x.neg.isInfinite = x.isInfinite := by
  rw [isInfinite, magnitudeBits_neg h, ← isInfinite]

theorem signedUnits_neg : x.neg.signedUnits = -x.signedUnits := by
  rw [signedUnits, signedUnits, units, magnitudeBits_neg h, ← units, isNegative_neg h]
  cases x.isNegative <;> simp

end Negation

theorem isInfinite_of_isFinite (h : x.isFinite = true) : x.isInfinite = false :=
  beq_eq_false_iff_ne.mpr (of_decide_eq_true h).ne

/-! ## Differences -/

theorem add_of_isFinite (hx : x.isFinite = true) (hy : y.isFinite = true) :
    ∃ negative, x.add y = ofSignMagnitude negative (bitsOfUnits (x.signedUnits + y.signedUnits).natAbs 1) := by
  rw [add, isNaN_of_isFinite hx, isNaN_of_isFinite hy, isInfinite_of_isFinite hx,
    isInfinite_of_isFinite hy]
  exact ⟨_, rfl⟩

theorem isZero_ofSignMagnitude (negative : Bool) {m : Nat} (h : m ≤ infinityBits) :
    (ofSignMagnitude negative m).isZero = true ↔ m = 0 := by
  rw [isZero, magnitudeBits_ofSignMagnitude negative h, beq_iff_eq]

/-- **A difference of finite doubles is zero exactly if they are equal**, however small it is. -/
theorem sub_eq_zero_iff (hx : x.isFinite = true) (hy : y.isFinite = true) :
    (x.sub y).eq zero = true ↔ x.signedUnits = y.signedUnits := by
  have hnan : y.isNaN = false := isNaN_of_isFinite hy
  obtain ⟨negative, hadd⟩ := add_of_isFinite hx ((isFinite_neg hnan).trans hy)
  rw [sub, hnan, if_neg Bool.false_ne_true, hadd, eq_zero_iff,
    isZero_ofSignMagnitude negative (bitsOfUnits_le _ _), bitsOfUnits_eq_zero_iff, signedUnits_neg hnan]
  omega

/-! ## Fractions -/

theorem magnitudeBits_wholePart (h : x.isFinite = true) :
    x.wholePart.magnitudeBits = bitsOfUnits (x.units / unitsPerOne * unitsPerOne) 1 := by
  rw [wholePart, if_pos h]
  exact magnitudeBits_ofSignMagnitude _ (bitsOfUnits_le _ _)

theorem isFinite_wholePart (h : x.isFinite = true) : x.wholePart.isFinite = true := by
  have hbits : x.magnitudeBits < infinityBits := of_decide_eq_true h
  refine decide_eq_true (lt_of_le_of_lt ?_ hbits)
  calc x.wholePart.magnitudeBits
      = bitsOfUnits (x.units / unitsPerOne * unitsPerOne) 1 := magnitudeBits_wholePart h
    _ ≤ bitsOfUnits x.units 1 := bitsOfUnits_mono Nat.one_pos Nat.one_pos
        (Nat.mul_le_mul_right 1 (Nat.div_mul_le_self _ _))
    _ = x.magnitudeBits := bitsOfUnits_units hbits.le

/-- The whole part is a whole number, and the double itself if that is one. -/
theorem signedUnits_wholePart_iff (h : x.isFinite = true) :
    x.signedUnits = x.wholePart.signedUnits ↔ unitsPerOne ∣ x.units := by
  constructor
  · intro heq
    have hbits := magnitudeBits_wholePart h
    have hdvd : unitsPerOne ∣ x.wholePart.units := by
      rw [units, hbits]
      exact dvd_unitsOfBits (hbits ▸ of_decide_eq_true (isFinite_wholePart h))
    rwa [← natAbs_signedUnits, heq, natAbs_signedUnits]
  · intro hdvd
    have hunits : bitsOfUnits x.units 1 = x.magnitudeBits := bitsOfUnits_units (of_decide_eq_true h).le
    rw [wholePart, if_pos h, Nat.div_mul_cancel hdvd, hunits, Number.ofSignMagnitude_self]

/-- What is not finite has no whole part, and its fractional part is no number. -/
theorem fract_of_not_isFinite (h : x.isFinite = false) : x.fract = nan := by
  rw [fract, wholePart, h, if_neg Bool.false_ne_true, sub]
  cases hnan : x.isNaN with
  | true => rfl
  | false =>
    have hinfinite : x.isInfinite = true := by
      simp only [isFinite, isNaN, decide_eq_false_iff_not] at h hnan
      exact beq_iff_eq.mpr (by omega)
    rw [if_neg Bool.false_ne_true, add, isNaN_neg hnan, hnan, isInfinite_neg hnan, hinfinite,
      isNegative_neg hnan]
    cases x.isNegative <;> rfl

/-- **A double is whole if its fractional part is zero.** -/
theorem fract_eq_zero_iff : x.fract.eq zero = true ↔ x.isWhole = true := by
  cases hfin : x.isFinite with
  | false =>
    have hnan : nan.eq zero = false := by decide
    rw [fract_of_not_isFinite hfin, hnan, isWhole, hfin, Bool.false_and]
  | true =>
    rw [fract, sub_eq_zero_iff hfin (isFinite_wholePart hfin), signedUnits_wholePart_iff hfin, isWhole,
      hfin, Bool.true_and, beq_iff_eq, Nat.dvd_iff_mod_eq_zero]

end FeatureFlags.Binary64
