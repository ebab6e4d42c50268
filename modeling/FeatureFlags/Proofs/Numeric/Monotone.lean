import FeatureFlags.Proofs.Numeric.Equality
import Mathlib.Algebra.Order.Ring.Nat
import Mathlib.Data.Nat.Log

/-!
# Proofs/Numeric/Monotone — rounding keeps the order, and words as they are

A greater quotient is not rounded to a lesser word (`bitsOfUnits_mono`), and the units of a word are
rounded to that word (`bitsOfUnits_units`).  The doubles that are not negative are the `ofWord`s of the
words up to the infinity, in the order of these words (`lt_ofWord`); sums, products and quotients of
such doubles are rounded quotients of units (`ofWord_add`, `ofWord_mul`, `ofWord_div`).
-/

namespace FeatureFlags.Binary64

variable {num den num' den' : Nat}

/-! ## The nearest whole number -/

/-- **A whole number that a quotient may be rounded to**: it is half a unit away at most, and half a
unit only if it is even. -/
structure IsRounded (num den q : Nat) : Prop where
  low : 2 * q * den ≤ 2 * num + den
  high : 2 * num ≤ 2 * q * den + den
  odd : q % 2 = 1 → 2 * q * den ≠ 2 * num + den ∧ 2 * num ≠ 2 * q * den + den

theorem isRounded_roundHalfEven (num : Nat) (hden : 0 < den) : IsRounded num den (roundHalfEven num den) := by
  have hdiv := Nat.div_add_mod num den
  have hmod := Nat.mod_lt num hden
  simp only [roundHalfEven]
  generalize num / den = whole at hdiv ⊢
  generalize num % den = rest at hdiv hmod ⊢
  have hwhole : 2 * whole * den = 2 * (den * whole) := by ring
  have hnext : 2 * (whole + 1) * den = 2 * (den * whole) + 2 * den := by ring
  split
  · exact ⟨by omega, by omega, fun _ => by omega⟩
  · split
    · exact ⟨by omega, by omega, fun _ => by omega⟩
    · obtain heven | hodd : whole % 2 = 0 ∨ whole % 2 = 1 := by omega
      · rw [heven, Nat.add_zero]
        exact ⟨by omega, by omega, fun _ => by omega⟩
      · rw [hodd]
        exact ⟨by omega, by omega, fun _ => by omega⟩

/-- **A greater quotient is rounded to no lesser number.** -/
theorem IsRounded.le {q q' : Nat} (hq : IsRounded num den q) (hq' : IsRounded num' den' q')
    (hden : 0 < den) (hden' : 0 < den') (h : num * den' ≤ num' * den) : q ≤ q' := by
  by_contra hlt
  obtain ⟨p, rfl⟩ : ∃ p, q = p + 1 := ⟨q - 1, by omega⟩
  -- the quotients lie on both sides of `p + 1/2`, so they are both there
  have hlow := Nat.mul_le_mul_right den' hq.low
  have hhigh := Nat.mul_le_mul_right den hq'.high
  have hp := Nat.mul_le_mul_right (den * den') (show 2 * q' ≤ 2 * p by omega)
  have htie : 2 * (p + 1) * den = 2 * num + den := by
    refine Nat.eq_of_mul_eq_mul_right hden' (le_antisymm hlow ?_)
    nlinarith
  have htie' : 2 * num' = 2 * q' * den' + den' := by
    refine Nat.eq_of_mul_eq_mul_right hden (le_antisymm hhigh ?_)
    nlinarith
  have hsame : q' = p := by
    refine le_antisymm (by omega) (Nat.le_of_mul_le_mul_right ?_ (Nat.mul_pos hden hden'))
    nlinarith
  subst hsame
  obtain heven | hodd : q' % 2 = 0 ∨ q' % 2 = 1 := by omega
  · exact (hq.odd (by omega)).1 htie
  · exact (hq'.odd hodd).2 htie'

theorem roundHalfEven_mono (hden : 0 < den) (hden' : 0 < den') (h : num * den' ≤ num' * den) :
    roundHalfEven num den ≤ roundHalfEven num' den' :=
  (isRounded_roundHalfEven num hden).le (isRounded_roundHalfEven num' hden') hden hden' h

@[simp] theorem roundHalfEven_mul (q : Nat) (hden : 0 < den) : roundHalfEven (q * den) den = q := by
  simp [roundHalfEven, Nat.mul_div_cancel _ hden, hden]

/-! ## The nearest word -/

/-- **How far the significand of a quotient is shifted.** -/
def shiftOf (num den : Nat) : Nat := Nat.log2 (num / den) - 52

theorem shiftOf_mono (hden : 0 < den) (hden' : 0 < den') (h : num * den' ≤ num' * den) :
    shiftOf num den ≤ shiftOf num' den' := by
  have hdiv : num / den ≤ num' / den' := by
    rw [Nat.le_div_iff_mul_le hden']
    refine Nat.le_of_mul_le_mul_right ?_ hden
    calc num / den * den' * den = num / den * den * den' := by ring
      _ ≤ num * den' := Nat.mul_le_mul_right _ (Nat.div_mul_le_self num den)
      _ ≤ num' * den := h
  have hlog : Nat.log2 (num / den) ≤ Nat.log2 (num' / den') := by
    rw [Nat.log2_eq_log_two, Nat.log2_eq_log_two]
    exact Nat.log_mono_right hdiv
  exact Nat.sub_le_sub_right hlog 52

/-- The significand has 53 bits, or is rounded up to `2 ^ 53`. -/
theorem roundHalfEven_le (num : Nat) (hden : 0 < den) :
    roundHalfEven num (den * 2 ^ shiftOf num den) ≤ 2 ^ 53 := by
  have hpow : 0 < den * 2 ^ shiftOf num den := by positivity
  have hlt : num / den < 2 ^ (53 + shiftOf num den) := by
    by_cases hzero : num / den = 0
    · rw [hzero]
      positivity
    · rw [← Nat.log2_lt hzero, shiftOf]
      omega
  rw [Nat.div_lt_iff_lt_mul hden, Nat.pow_add] at hlt
  rw [← roundHalfEven_mul (2 ^ 53) hpow]
  refine roundHalfEven_mono hpow hpow (Nat.mul_le_mul_right _ ?_)
  nlinarith

/-- A shifted significand has all its 53 bits. -/
theorem le_roundHalfEven (num : Nat) (hden : 0 < den) (h : 0 < shiftOf num den) :
    2 ^ 52 ≤ roundHalfEven num (den * 2 ^ shiftOf num den) := by
  have hpow : 0 < den * 2 ^ shiftOf num den := by positivity
  have hpos : num / den ≠ 0 := by
    intro hzero
    rw [shiftOf, hzero] at h
    exact absurd h (by decide)
  have hle : 2 ^ (52 + shiftOf num den) ≤ num / den := by
    rw [← Nat.le_log2 hpos, shiftOf] at *
    omega
  rw [Nat.le_div_iff_mul_le hden, Nat.pow_add] at hle
  rw [← roundHalfEven_mul (2 ^ 52) hpow]
  refine roundHalfEven_mono hpow hpow (Nat.mul_le_mul_right _ ?_)
  nlinarith

theorem bitsOfUnits_eq_min (num den : Nat) :
    bitsOfUnits num den = Min.min (shiftOf num den * 2 ^ 52 +
      roundHalfEven num (den * 2 ^ shiftOf num den)) infinityBits := rfl

/-- **A greater quotient is rounded to no lesser word.** -/
theorem bitsOfUnits_mono (hden : 0 < den) (hden' : 0 < den') (h : num * den' ≤ num' * den) :
    bitsOfUnits num den ≤ bitsOfUnits num' den' := by
  rw [bitsOfUnits_eq_min, bitsOfUnits_eq_min]
  refine min_le_min_right _ ?_
  have hupper := roundHalfEven_le num hden
  rcases (shiftOf_mono hden hden' h).lt_or_eq with hlt | heq
  · have hlower := le_roundHalfEven num' hden' (by omega)
    omega
  · rw [heq]
    refine Nat.add_le_add_left (roundHalfEven_mono (by positivity) (by positivity) ?_) _
    nlinarith [Nat.mul_le_mul_right (2 ^ shiftOf num' den') h]

theorem bitsOfUnits_le (num den : Nat) : bitsOfUnits num den ≤ infinityBits :=
  Nat.min_le_right _ _

/-- **The units of a word are rounded to the word.** -/
@[simp] theorem bitsOfUnits_units {m : Nat} (h : m ≤ infinityBits) :
    bitsOfUnits (unitsOfBits m) 1 = m := by
  obtain ⟨s, q, rfl, hs, hq⟩ := exists_shifted m
  have hpow : 0 < 2 ^ s := Nat.two_pow_pos s
  rw [unitsOfBits_shifted hs hq.le]
  refine bitsOfUnits_eq h (hs.imp_right fun hle => ?_) ?_ ?_
  · rw [Nat.div_one]
    exact Nat.mul_le_mul_right _ hle
  · rw [Nat.div_one]
    exact Nat.mul_lt_mul_of_pos_right hq hpow
  · rw [Nat.one_mul]
    exact roundHalfEven_mul q hpow

theorem bitsOfUnits_zero (den : Nat) : bitsOfUnits 0 den = 0 := by
  simp [bitsOfUnits, roundHalfEven, infinityBits]

/-! ## Doubles that are not negative -/

/-- **The double of a word without sign.** -/
def ofWord (m : Nat) : Binary64 := ofSignMagnitude false m

section Words

variable {m n : Nat}

theorem infinityBits_lt : infinityBits < 2 ^ 63 := by decide

theorem magnitudeBits_ofSignMagnitude (negative : Bool) (h : m ≤ infinityBits) :
    (ofSignMagnitude negative m).magnitudeBits = m := by
  have := infinityBits_lt
  cases negative <;>
    simp only [ofSignMagnitude, magnitudeBits, Bool.false_eq_true, if_false, if_true, Nat.pow_eq,
      UInt64.toNat_ofNat'] <;>
    omega

theorem isNegative_ofSignMagnitude (negative : Bool) (h : m ≤ infinityBits) :
    (ofSignMagnitude negative m).isNegative = negative := by
  have := infinityBits_lt
  cases negative <;>
    simp only [ofSignMagnitude, isNegative, Bool.false_eq_true, if_false, if_true, Nat.pow_eq,
      UInt64.toNat_ofNat', decide_eq_true_eq, decide_eq_false_iff_not] <;>
    omega

theorem magnitudeBits_ofWord (h : m ≤ infinityBits) : (ofWord m).magnitudeBits = m :=
  magnitudeBits_ofSignMagnitude false h

/-- **What is rounded is a number.** -/
theorem isNaN_ofRatio (negative : Bool) (num den : Nat) : (ofRatio negative num den).isNaN = false := by
  have hle := bitsOfUnits_le (num * unitsPerOne) den
  rw [isNaN, ofRatio, magnitudeBits_ofSignMagnitude negative hle, decide_eq_false_iff_not]
  omega

theorem isNegative_ofWord (h : m ≤ infinityBits) : (ofWord m).isNegative = false :=
  isNegative_ofSignMagnitude false h

theorem isNaN_ofWord (h : m ≤ infinityBits) : (ofWord m).isNaN = false := by
  rw [isNaN, magnitudeBits_ofWord h, decide_eq_false_iff_not]
  omega

theorem isInfinite_ofWord (h : m < infinityBits) : (ofWord m).isInfinite = false := by
  rw [isInfinite, magnitudeBits_ofWord h.le, beq_eq_false_iff_ne]
  omega

theorem units_ofWord (h : m ≤ infinityBits) : (ofWord m).units = unitsOfBits m := by
  rw [units, magnitudeBits_ofWord h]

theorem signedUnits_ofWord (h : m ≤ infinityBits) : (ofWord m).signedUnits = unitsOfBits m := by
  rw [signedUnits, isNegative_ofWord h, units_ofWord h, if_neg Bool.false_ne_true]

/-- **Doubles are in the order of their words.** -/
theorem lt_ofWord (hm : m ≤ infinityBits) (hn : n ≤ infinityBits) :
    (ofWord m).lt (ofWord n) = true ↔ m < n := by
  simp only [lt, isNaN_ofWord hm, isNaN_ofWord hn, signedUnits_ofWord hm, signedUnits_ofWord hn,
    Bool.not_false, Bool.true_and, decide_eq_true_eq, Int.ofNat_lt]
  exact strictMono_unitsOfBits.lt_iff_lt

theorem ofWord_add (hm : m ≤ infinityBits) (hn : n < infinityBits) :
    (ofWord m).add (ofWord n) = ofWord (bitsOfUnits (unitsOfBits m + unitsOfBits n) 1) := by
  rw [add, isNaN_ofWord hm, isNaN_ofWord hn.le, isInfinite_ofWord hn]
  rcases hm.lt_or_eq with hlt | rfl
  · rw [isInfinite_ofWord hlt, signedUnits_ofWord hm, signedUnits_ofWord hn.le, isNegative_ofWord hm,
      isNegative_ofWord hn.le]
    have hsum : ((unitsOfBits m : Int) + unitsOfBits n).natAbs = unitsOfBits m + unitsOfBits n := by
      omega
    have hsign : ¬ (unitsOfBits m : Int) + unitsOfBits n < 0 := by omega
    simp only [hsum, hsign, Bool.or_false, Bool.false_eq_true, if_false, Bool.and_false,
      decide_false, ite_self]
    rfl
  · have hinfinite : (ofWord infinityBits).isInfinite = true := by decide
    have hbits : infinityBits ≤ bitsOfUnits (unitsOfBits infinityBits + unitsOfBits n) 1 := by
      calc infinityBits = bitsOfUnits (unitsOfBits infinityBits) 1 := (bitsOfUnits_units le_rfl).symm
        _ ≤ _ := bitsOfUnits_mono Nat.one_pos Nat.one_pos (by omega)
    rw [hinfinite, le_antisymm (bitsOfUnits_le _ _) hbits]
    rfl

theorem ofWord_mul (hm : m < infinityBits) (hn : n < infinityBits) :
    (ofWord m).mul (ofWord n) =
      ofWord (bitsOfUnits (unitsOfBits m * unitsOfBits n * unitsPerOne) (unitsPerOne * unitsPerOne)) := by
  simp only [mul, isNaN_ofWord hm.le, isNaN_ofWord hn.le, isInfinite_ofWord hm, isInfinite_ofWord hn,
    isNegative_ofWord hm.le, isNegative_ofWord hn.le, units_ofWord hm.le, units_ofWord hn.le]
  rfl

theorem ofWord_div (hm : m < infinityBits) (hn : n < infinityBits) (hpos : 0 < n) :
    (ofWord m).div (ofWord n) =
      ofWord (bitsOfUnits (unitsOfBits m * unitsPerOne) (unitsOfBits n)) := by
  have hzero : (ofWord n).isZero = false := by
    rw [isZero, magnitudeBits_ofWord hn.le, beq_eq_false_iff_ne]
    omega
  simp only [div, isNaN_ofWord hm.le, isNaN_ofWord hn.le, isInfinite_ofWord hm, isInfinite_ofWord hn,
    isNegative_ofWord hm.le, isNegative_ofWord hn.le, units_ofWord hm.le, units_ofWord hn.le, hzero]
  rfl

end Words

end FeatureFlags.Binary64
