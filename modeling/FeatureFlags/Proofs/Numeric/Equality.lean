import FeatureFlags.Proofs.Numeric.Rounding
import Mathlib.Order.Monotone.Basic

/-!
# Proofs/Numeric/Equality — which doubles are equal

The units of a word grow with the word (`Binary64.strictMono_unitsOfBits`), so equal doubles are the
same word unless they are the two zeros (`Binary64.eq_cases`); a NaN is equal to nothing.  Of two equal
doubles the sign tells whether they are the same (`Binary64.same_of_eq`).
-/

namespace FeatureFlags.Binary64

variable {x y z : Binary64}

/-- **A greater word has more units.** -/
theorem strictMono_unitsOfBits : StrictMono unitsOfBits := by
  refine strictMono_nat_of_lt_succ fun m => ?_
  obtain ⟨s, q, rfl, hs, hq⟩ := exists_shifted m
  rw [Nat.add_assoc, unitsOfBits_shifted hs hq.le, unitsOfBits_shifted (by omega) hq]
  exact Nat.mul_lt_mul_of_pos_right q.lt_succ_self (Nat.two_pow_pos s)

theorem isZero_iff : x.isZero = true ↔ x.units = 0 := by
  have hzero : unitsOfBits 0 = 0 := rfl
  rw [isZero, beq_iff_eq, units, ← hzero]
  exact strictMono_unitsOfBits.injective.eq_iff.symm

/-- A word is its sign and its magnitude. -/
theorem ext_sign (hsign : x.isNegative = y.isNegative) (hmagnitude : x.magnitudeBits = y.magnitudeBits) :
    x = y := by
  obtain ⟨x⟩ := x
  obtain ⟨y⟩ := y
  have hx := x.toNat_lt
  have hy := y.toNat_lt
  simp only [isNegative, decide_eq_decide, magnitudeBits, Nat.pow_eq] at hsign hmagnitude
  exact congrArg mk (UInt64.toNat_inj.mp (by omega))

theorem eq_iff :
    x.eq y = true ↔ x.isNaN = false ∧ y.isNaN = false ∧ x.signedUnits = y.signedUnits := by
  simp [eq, and_assoc]

theorem eq_self (h : x.isNaN = false) : x.eq x = true := eq_iff.mpr ⟨h, h, rfl⟩

theorem isNaN_of_isFinite (h : x.isFinite = true) : x.isNaN = false := by
  simp only [isFinite, isNaN, decide_eq_true_eq, decide_eq_false_iff_not] at *
  omega

theorem eq_symm (h : x.eq y = true) : y.eq x = true := by
  rw [eq_iff] at h ⊢
  exact ⟨h.2.1, h.1, h.2.2.symm⟩

theorem eq_trans (h : x.eq y = true) (h' : y.eq z = true) : x.eq z = true := by
  rw [eq_iff] at h h' ⊢
  exact ⟨h.1, h'.2.1, h.2.2.trans h'.2.2⟩

/-- **Equal doubles are the same, or both are zeros.** -/
theorem eq_cases (h : x.eq y = true) : x = y ∨ x.isZero = true ∧ y.isZero = true := by
  have hunits := (eq_iff.mp h).2.2
  rw [isZero_iff, isZero_iff]
  by_cases hsign : x.isNegative = y.isNegative
  · refine .inl (ext_sign hsign (strictMono_unitsOfBits.injective ?_))
    change x.units = y.units
    simp only [signedUnits, hsign] at hunits
    split at hunits <;> omega
  · right
    cases hx : x.isNegative <;> cases hy : y.isNegative <;>
      simp only [signedUnits, hx, hy, Bool.false_eq_true, if_false, if_true] at hunits
    · exact absurd (hx.trans hy.symm) hsign
    · omega
    · omega
    · exact absurd (hx.trans hy.symm) hsign

theorem isZero_of_eq (h : x.eq y = true) : x.isZero = y.isZero := by
  obtain rfl | ⟨hx, hy⟩ := eq_cases h
  · rfl
  · rw [hx, hy]

/-- **Equal doubles are the same** if zeros have the same sign. -/
theorem same_of_eq (h : x.eq y = true) (hsign : x.isZero = true → x.isNegative = y.isNegative) :
    x = y := by
  obtain heq | ⟨hx, hy⟩ := eq_cases h
  · exact heq
  · refine ext_sign (hsign hx) ?_
    rw [isZero, beq_iff_eq] at hx hy
    rw [hx, hy]

/-- Either zero is cut to zero. -/
theorem toInt64_of_isZero (h : x.isZero = true) : x.toInt64 = 0 := by
  have htruncate : x.truncate = 0 := by
    simp [truncate, isZero_iff.mp h]
  rw [toInt64, htruncate]
  split <;> rfl

/-- Equal doubles are cut to one integer. -/
theorem toInt64_of_eq (h : x.eq y = true) : x.toInt64 = y.toInt64 := by
  obtain rfl | ⟨hx, hy⟩ := eq_cases h
  · rfl
  · rw [toInt64_of_isZero hx, toInt64_of_isZero hy]

end FeatureFlags.Binary64
