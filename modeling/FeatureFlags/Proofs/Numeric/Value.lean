import FeatureFlags.Proofs.Json.Numerals
import FeatureFlags.Proofs.Numeric.Precision
import Mathlib.Data.Rat.Floor

/-!
# Proofs/Numeric/Value — the exact values of numbers

A finite double is a whole number of units, so it has an exact rational value (`Binary64.value`), and
cutting it to an integer is cutting that value (`Binary64.truncate_eq`).  A whole number is rounded to a
whole double (`Binary64.dvd_unitsOfBits`), and no power of two is rounded away from
(`Binary64.bitsOfUnits_two_pow`).
-/

namespace FeatureFlags

/-- **A rational without its fractional part.** -/
def towardZero (q : ℚ) : ℤ := if 0 ≤ q then ⌊q⌋ else ⌈q⌉

@[simp] theorem towardZero_intCast (i : ℤ) : towardZero i = i := by
  simp [towardZero]

theorem towardZero_neg (q : ℚ) : towardZero (-q) = -towardZero q := by
  rcases lt_trichotomy q 0 with hlt | rfl | hgt
  · rw [towardZero, towardZero, if_pos (by linarith), if_neg (by linarith), Int.floor_neg]
  · simp [towardZero]
  · rw [towardZero, towardZero, if_neg (by linarith), if_pos (by linarith), Int.ceil_neg]

namespace Binary64

variable {x y : Binary64}

attribute [local irreducible] unitsPerOne

/-! ## Doubles -/

/-- **The exact value of a double** that is finite. -/
def value (x : Binary64) : ℚ := x.signedUnits / unitsPerOne

theorem unitsPerOne_ne_zero : (unitsPerOne : ℚ) ≠ 0 := Nat.cast_ne_zero.mpr unitsPerOne_pos.ne'

theorem value_eq_iff : x.value = y.value ↔ x.signedUnits = y.signedUnits := by
  rw [value, value, div_left_inj' unitsPerOne_ne_zero, Int.cast_inj]

theorem value_eq_intCast_iff {i : ℤ} : x.value = i ↔ x.signedUnits = i * unitsPerOne := by
  rw [value, div_eq_iff unitsPerOne_ne_zero]
  exact_mod_cast Iff.rfl

theorem natAbs_signedUnits (x : Binary64) : x.signedUnits.natAbs = x.units := by
  rw [signedUnits]
  split <;> omega

/-- **Cutting a double** is cutting its value. -/
theorem truncate_eq (x : Binary64) : x.truncate = towardZero x.value := by
  have hunits : towardZero ((x.units : ℤ) / unitsPerOne : ℚ) = (x.units / unitsPerOne : Nat) := by
    rw [towardZero, if_pos (by positivity), Rat.floor_intCast_div_natCast]
    rfl
  rw [truncate, value, signedUnits]
  split
  · rw [Int.cast_neg, neg_div, towardZero_neg, hunits]
  · rw [hunits]

/-- **A double is whole** if its value is an integer. -/
theorem isWhole_iff (hfin : x.isFinite = true) : x.isWhole = true ↔ ∃ i : ℤ, x.value = i := by
  simp only [isWhole, hfin, Bool.true_and, beq_iff_eq, value_eq_intCast_iff, ← Nat.dvd_iff_mod_eq_zero,
    ← natAbs_signedUnits, ← Int.natCast_dvd]
  exact ⟨fun ⟨i, h⟩ => ⟨i, h.trans (Int.mul_comm _ _)⟩, fun ⟨i, h⟩ => ⟨i, h.trans (Int.mul_comm _ _)⟩⟩

theorem abs_value (x : Binary64) : |x.value| = x.units / unitsPerOne := by
  rw [value, abs_div, Nat.abs_cast, ← Int.cast_abs, Int.abs_eq_natAbs, natAbs_signedUnits,
    Int.cast_natCast]

theorem abs_value_lt_iff {n : Nat} : |x.value| < n ↔ x.units < n * unitsPerOne := by
  rw [abs_value, div_lt_iff₀ (Nat.cast_pos.mpr unitsPerOne_pos)]
  exact_mod_cast Iff.rfl

section Integral

variable {i : ℤ}

theorem units_of_value (h : x.value = i) : x.units = i.natAbs * unitsPerOne := by
  rw [← natAbs_signedUnits, value_eq_intCast_iff.mp h, Int.natAbs_mul, Int.natAbs_natCast]

theorem isZero_of_value (h : x.value = i) : x.isZero = decide (i = 0) := by
  rw [Bool.eq_iff_iff, isZero_iff, units_of_value h, Nat.mul_eq_zero, decide_eq_true_iff,
    Int.natAbs_eq_zero]
  exact or_iff_left unitsPerOne_pos.ne'

/-- The sign of a double is the sign of its value, if that is not zero. -/
theorem isNegative_of_value (h : x.value = i) (hne : i ≠ 0) : x.isNegative = decide (i < 0) := by
  have hsigned := value_eq_intCast_iff.mp h
  have hunit : (0 : ℤ) < unitsPerOne := Int.natCast_pos.mpr unitsPerOne_pos
  cases hx : x.isNegative with
  | false =>
    rw [signedUnits, hx, if_neg Bool.false_ne_true] at hsigned
    have hle := nonneg_of_mul_nonneg_left (hsigned ▸ Int.natCast_nonneg _) hunit
    rw [decide_eq_false (not_lt.mpr hle)]
  | true =>
    rw [signedUnits, hx, if_pos rfl] at hsigned
    have hle := nonpos_of_mul_nonpos_left (hsigned ▸ Int.neg_nonpos_of_nonneg (Int.natCast_nonneg _)) hunit
    rw [decide_eq_true (lt_of_le_of_ne hle hne)]

end Integral

/-! ## Doubles of integers -/

variable {n k : Nat} {i : ℤ}

/-- **A whole number is rounded to a whole double.** -/
theorem dvd_unitsOfBits (hfin : bitsOfUnits (n * unitsPerOne) 1 < infinityBits) :
    unitsPerOne ∣ unitsOfBits (bitsOfUnits (n * unitsPerOne) 1) := by
  rw [units_bitsOfUnits Nat.one_pos hfin, Nat.one_mul]
  generalize shiftOf (n * unitsPerOne) 1 = shift
  obtain ⟨unit, -, hunit⟩ := exists_unitsPerOne
  rw [hunit]
  rcases Nat.le_total shift unit with hle | hle
  · -- the shifted digits are all zero, so nothing is rounded
    rw [← Nat.sub_add_cancel hle, Nat.pow_add, ← Nat.mul_assoc,
      roundHalfEven_mul _ (Nat.two_pow_pos shift), Nat.mul_assoc]
    exact Nat.dvd_mul_left _ _
  · exact Nat.dvd_mul_left_of_dvd (Nat.pow_dvd_pow 2 hle) _

theorem unitsOfBits_two_pow (k : Nat) : unitsOfBits ((k + 1023) * 2 ^ 52) = 2 ^ k * unitsPerOne := by
  obtain ⟨unit, hk, hunit⟩ := exists_unitsPerOne
  have hshift := unitsOfBits_shifted (s := k + 1022) (q := 2 ^ 52) (.inr (by omega)) (by omega)
  rw [show (k + 1023) * 2 ^ 52 = (k + 1022) * 2 ^ 52 + 2 ^ 52 by omega, hshift, hunit,
    ← Nat.pow_add, ← Nat.pow_add]
  exact congrArg (2 ^ ·) (by omega)

/-- **A power of two is not rounded.** -/
theorem bitsOfUnits_two_pow (hk : k ≤ 1024) :
    bitsOfUnits (2 ^ k * unitsPerOne) 1 = (k + 1023) * 2 ^ 52 := by
  rw [← unitsOfBits_two_pow, bitsOfUnits_units]
  simp only [infinityBits, Nat.pow_eq]
  omega

theorem bitsOfUnits_le_two_pow (hk : k ≤ 1024) (h : n ≤ 2 ^ k) :
    bitsOfUnits (n * unitsPerOne) 1 ≤ (k + 1023) * 2 ^ 52 := by
  rw [← bitsOfUnits_two_pow hk]
  exact bitsOfUnits_mono Nat.one_pos Nat.one_pos (Nat.mul_le_mul_right _ (Nat.mul_le_mul_right _ h))

theorem two_pow_le_bitsOfUnits (hk : k ≤ 1024) (h : 2 ^ k ≤ n) :
    (k + 1023) * 2 ^ 52 ≤ bitsOfUnits (n * unitsPerOne) 1 := by
  rw [← bitsOfUnits_two_pow hk]
  exact bitsOfUnits_mono Nat.one_pos Nat.one_pos (Nat.mul_le_mul_right _ (Nat.mul_le_mul_right _ h))

theorem magnitudeBits_ofInt (i : ℤ) :
    (ofInt i).magnitudeBits = bitsOfUnits (i.natAbs * unitsPerOne) 1 :=
  magnitudeBits_ofSignMagnitude _ (bitsOfUnits_le _ _)

theorem isNegative_ofInt (i : ℤ) : (ofInt i).isNegative = decide (i < 0) :=
  isNegative_ofSignMagnitude _ (bitsOfUnits_le _ _)

theorem magnitudeBits_ofInt_lt (h : i.natAbs ≤ 2 ^ 64) : (ofInt i).magnitudeBits < infinityBits := by
  rw [magnitudeBits_ofInt]
  exact lt_of_le_of_lt (bitsOfUnits_le_two_pow (by norm_num) h) (by decide)

/-- The magnitude of the double of a 64-bit integer is whole, and on the same side of `2 ^ 63`. -/
theorem exists_units_ofInt (h : i.natAbs ≤ 2 ^ 64) :
    ∃ c, (ofInt i).units = c * unitsPerOne ∧ c ≤ 2 ^ 64 ∧ (2 ^ 63 ≤ i.natAbs → 2 ^ 63 ≤ c) := by
  have hbits := magnitudeBits_ofInt i
  obtain ⟨c, hc⟩ := dvd_unitsOfBits (hbits ▸ magnitudeBits_ofInt_lt h)
  have hunits : (ofInt i).units = c * unitsPerOne := by rw [units, hbits, hc, Nat.mul_comm]
  refine ⟨c, hunits, ?_, fun hlarge => ?_⟩
  · have hle := strictMono_unitsOfBits.monotone (bitsOfUnits_le_two_pow (k := 64) (by norm_num) h)
    rw [← hbits, unitsOfBits_two_pow, ← units, hunits] at hle
    exact Nat.le_of_mul_le_mul_right hle unitsPerOne_pos
  · have hle := strictMono_unitsOfBits.monotone (two_pow_le_bitsOfUnits (k := 63) (by norm_num) hlarge)
    rw [← hbits, unitsOfBits_two_pow, ← units, hunits] at hle
    exact Nat.le_of_mul_le_mul_right hle unitsPerOne_pos

/-- **The double of a 64-bit integer** is finite and whole, and on the same side of `2 ^ 63`. -/
theorem exists_value_ofInt (h : i.natAbs ≤ 2 ^ 64) :
    (ofInt i).isFinite = true ∧
      ∃ j : ℤ, (ofInt i).value = j ∧ j.natAbs ≤ 2 ^ 64 ∧ (2 ^ 63 ≤ i → 2 ^ 63 ≤ j) := by
  obtain ⟨c, hunits, hhigh, hlow⟩ := exists_units_ofInt h
  refine ⟨decide_eq_true (magnitudeBits_ofInt_lt h), if i < 0 then -(c : ℤ) else c, ?_,
    by split <;> omega, fun hlarge => ?_⟩
  · rw [value_eq_intCast_iff, signedUnits, isNegative_ofInt, hunits]
    simp only [decide_eq_true_eq]
    split <;> push_cast <;> ring
  · rw [if_neg (by omega)]
    exact_mod_cast hlow (by omega)

/-! ## Signed 64-bit integers -/

/-- **The greatest signed 64-bit integer is rounded up**, to a power of two. -/
theorem ofInt_greatestInt64 : ofInt greatestInt64 = ofWord ((63 + 1023) * 2 ^ 52) := by
  decide +kernel

theorem abs_lt_greatestInt64_iff (hfin : x.isFinite = true) :
    x.abs.lt (ofInt greatestInt64) = true ↔ |x.value| < 2 ^ 63 := by
  have hbits : x.magnitudeBits < infinityBits := of_decide_eq_true hfin
  have hvalue : |x.value| < 2 ^ 63 ↔ x.units < unitsOfBits ((63 + 1023) * 2 ^ 52) := by
    rw [unitsOfBits_two_pow, ← abs_value_lt_iff, Nat.cast_pow, Nat.cast_ofNat]
  rw [ofInt_greatestInt64, hvalue]
  exact (lt_ofWord hbits.le (by decide)).trans strictMono_unitsOfBits.lt_iff_lt.symm

/-- **A whole double of magnitude below `2 ^ 63` is converted exactly**: nothing is cut, and nothing
clamped. -/
theorem toInt64_of_value (hfin : x.isFinite = true) (hvalue : x.value = i) (hlt : |x.value| < 2 ^ 63) :
    x.toInt64 = x.truncate ∧ x.truncate = i := by
  have htruncate : x.truncate = i := by rw [truncate_eq, hvalue, towardZero_intCast]
  have hrange : |i| < 2 ^ 63 := by
    rw [hvalue] at hlt
    exact_mod_cast hlt
  have hlow : leastInt64 ≤ i := (neg_lt_of_abs_lt hrange).le
  have hhigh : i ≤ greatestInt64 := Int.le_of_lt_add_one (lt_of_abs_lt hrange)
  refine ⟨?_, htruncate⟩
  rw [toInt64, isNaN_of_isFinite hfin, if_neg Bool.false_ne_true, htruncate, min_eq_right hhigh,
    max_eq_right hlow]

end Binary64

/-! ## Numbers -/

namespace Number

/-- **The exact value of a number.** -/
def value : Number → ℚ
  | int i => i
  | double x => x.value

/-- **An integer beyond the signed 64-bit ones** is an unsigned one, and its double lies beyond them
like it. -/
theorem exists_value_of_not_isInt64 {i : ℤ} (h : (int i).Readable) (hbeyond : ¬ isInt64 i = true) :
    Binary64.greatestInt64 < i ∧ (Binary64.ofInt i).isFinite = true ∧
      ∃ j : ℤ, (Binary64.ofInt i).value = j ∧ Binary64.greatestInt64 < j := by
  have hrange := isUInt64_iff.mp (h.resolve_left hbeyond)
  rw [isInt64_iff] at hbeyond
  simp only [Binary64.leastInt64, Binary64.greatestInt64, greatestUInt64] at hrange hbeyond ⊢
  obtain ⟨hfin, j, hj, -, hlarge⟩ := Binary64.exists_value_ofInt (i := i) (by omega)
  have hj63 := hlarge (by omega)
  exact ⟨by omega, hfin, j, hj, by omega⟩

end Number

end FeatureFlags
