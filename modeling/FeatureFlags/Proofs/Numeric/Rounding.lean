import FeatureFlags.Numeric.Binary64
import Mathlib.Tactic.Linarith
import Mathlib.Tactic.NormNum
import Mathlib.Tactic.Positivity
import Mathlib.Tactic.Ring

/-!
# Proofs/Numeric/Rounding — rounding lands on the double whose interval holds the value

A positive word without sign is a significand `q` shifted by `s` (`unitsOfBits_shifted`), and the
reals nearer to it than to its neighbours are those between the two midpoints (`Nearest`).
`bitsOfUnits` sends every value of that interval to the word, and so does `ofDecimal`, whose shortcuts
for far-away powers are never taken there (`ofDecimal_of_nearest`).
-/

namespace FeatureFlags.Binary64

/-! ## The word as a shifted significand -/

/-- A significand of at least `2 ^ 52`, or any with no shift, is the word's units. -/
theorem unitsOfBits_shifted {s q : Nat} (h : s = 0 ∨ 2 ^ 52 ≤ q) (hq : q ≤ 2 ^ 53) :
    unitsOfBits (s * 2 ^ 52 + q) = q * 2 ^ s := by
  simp only [unitsOfBits, Nat.pow_eq]
  split
  · rename_i hlt
    obtain rfl : s = 0 := by omega
    simp
  · rename_i hge
    obtain hlt | rfl : q < 2 ^ 53 ∨ q = 2 ^ 53 := by omega
    · have hdiv : (s * 2 ^ 52 + q) / 2 ^ 52 - 1 = s := by omega
      have hmod : 2 ^ 52 + (s * 2 ^ 52 + q) % 2 ^ 52 = q := by omega
      rw [hdiv, hmod]
    · have hdiv : (s * 2 ^ 52 + 2 ^ 53) / 2 ^ 52 - 1 = s + 1 := by omega
      have hmod : (s * 2 ^ 52 + 2 ^ 53) % 2 ^ 52 = 0 := by omega
      rw [hdiv, hmod, Nat.pow_succ]
      ring

/-- **Every word is a shifted significand.** -/
theorem exists_shifted (m : Nat) :
    ∃ s q, m = s * 2 ^ 52 + q ∧ (s = 0 ∨ 2 ^ 52 ≤ q) ∧ q < 2 ^ 53 := by
  by_cases h : m < 2 ^ 52
  · exact ⟨0, m, by omega, .inl rfl, by omega⟩
  · exact ⟨m / 2 ^ 52 - 1, 2 ^ 52 + m % 2 ^ 52, by omega, .inr (by omega), by omega⟩

/-- The word below it: half as far away where the significand is the least one of its shift. -/
theorem unitsOfBits_pred {s q : Nat} (hpos : 0 < q) (h : s = 0 ∨ 2 ^ 52 ≤ q) (hq : q < 2 ^ 53) :
    (s = 0 ∨ 2 ^ 52 < q) ∧ unitsOfBits (s * 2 ^ 52 + q - 1) = (q - 1) * 2 ^ s ∨
      ∃ t, s = t + 1 ∧ q = 2 ^ 52 ∧
        unitsOfBits (s * 2 ^ 52 + q - 1) + 2 ^ t = 2 ^ 53 * 2 ^ t := by
  by_cases hbound : s = 0 ∨ 2 ^ 52 < q
  · refine .inl ⟨hbound, ?_⟩
    rw [show s * 2 ^ 52 + q - 1 = s * 2 ^ 52 + (q - 1) by omega]
    exact unitsOfBits_shifted (by omega) (by omega)
  · right
    obtain ⟨t, rfl⟩ : ∃ t, s = t + 1 := ⟨s - 1, by omega⟩
    refine ⟨t, rfl, by omega, ?_⟩
    rw [show (t + 1) * 2 ^ 52 + q - 1 = t * 2 ^ 52 + (2 ^ 53 - 1) by omega,
      unitsOfBits_shifted (.inr (by omega)) (by omega), ← Nat.succ_mul]
    norm_num

/-! ## Rounding inside the interval -/

/-- **Between the midpoints**: `num / den` units are nearest to the word `m`; the midpoints belong to
an even word. -/
structure Nearest (m num den : Nat) : Prop where
  low : (unitsOfBits (m - 1) + unitsOfBits m) * den ≤ 2 * num
  high : 2 * num ≤ (unitsOfBits m + unitsOfBits (m + 1)) * den
  odd : m % 2 = 1 → (unitsOfBits (m - 1) + unitsOfBits m) * den ≠ 2 * num ∧
    2 * num ≠ (unitsOfBits m + unitsOfBits (m + 1)) * den

/-- **The nearest whole number**; of two it is the even one. -/
theorem roundHalfEven_eq {num den q : Nat} (hlow : 2 * q * den ≤ 2 * num + den)
    (hhigh : 2 * num ≤ 2 * q * den + den)
    (hodd : q % 2 = 1 → 2 * q * den ≠ 2 * num + den ∧ 2 * num ≠ 2 * q * den + den)
    (hden : 0 < den) : roundHalfEven num den = q := by
  have hdiv := Nat.div_add_mod num den
  have hmod := Nat.mod_lt num hden
  simp only [roundHalfEven]
  set whole := num / den
  set rest := num % den
  have hle : whole ≤ q := by
    by_contra hlt
    have : den * (q + 1) ≤ den * whole := Nat.mul_le_mul_left den (by omega)
    nlinarith
  have hge : q ≤ whole + 1 := by
    by_contra hlt
    have : den * (whole + 2) ≤ den * q := Nat.mul_le_mul_left den (by omega)
    nlinarith
  obtain rfl | rfl : q = whole ∨ q = whole + 1 := by omega
  · have : 2 * whole * den = 2 * (den * whole) := by ring
    split
    · rfl
    · split
      · omega
      · have : whole % 2 ≠ 1 := fun h => (hodd h).2 (by omega)
        omega
  · have : 2 * (whole + 1) * den = 2 * (den * whole) + 2 * den := by ring
    split
    · omega
    · split
      · rfl
      · have : (whole + 1) % 2 ≠ 1 := fun h => (hodd h).1 (by omega)
        omega

/-- The units of a value fix the shift it is rounded with. -/
theorem shift_eq {n s : Nat} (hlow : s = 0 ∨ 2 ^ 52 * 2 ^ s ≤ n) (hhigh : n < 2 ^ 53 * 2 ^ s) :
    Nat.log2 n - 52 = s := by
  have hupper : n.log2 < 53 + s := by
    by_cases hn : n = 0
    · subst hn
      rw [Nat.log2_zero]
      omega
    · rw [Nat.log2_lt hn, Nat.pow_add]
      exact hhigh
  rcases hlow with rfl | hlow
  · omega
  · have hn : n ≠ 0 := by
      have : 0 < 2 ^ 52 * 2 ^ s := by positivity
      omega
    have hlower : 52 + s ≤ n.log2 := by
      rw [Nat.le_log2 hn, Nat.pow_add]
      exact hlow
    omega

/-- Rounding with a known shift and significand. -/
theorem bitsOfUnits_eq {num den s q : Nat} (hfin : s * 2 ^ 52 + q ≤ infinityBits)
    (hlow : s = 0 ∨ 2 ^ 52 * 2 ^ s ≤ num / den) (hhigh : num / den < 2 ^ 53 * 2 ^ s)
    (hround : roundHalfEven num (den * 2 ^ s) = q) :
    bitsOfUnits num den = s * 2 ^ 52 + q := by
  simp only [bitsOfUnits, shift_eq hlow hhigh, Nat.pow_eq, hround]
  exact Nat.min_eq_left hfin

/-- A value at most half a step above a significand has its shift, or a smaller one. -/
theorem quotient_lt {num den s q : Nat} (hden : 0 < den) (hq : q < 2 ^ 53)
    (hhigh : 2 * num ≤ 2 * q * (den * 2 ^ s) + den * 2 ^ s) : num / den < 2 ^ 53 * 2 ^ s := by
  have hpow : 0 < den * 2 ^ s := by positivity
  rw [Nat.div_lt_iff_lt_mul hden]
  have := Nat.mul_le_mul_right (den * 2 ^ s) (show 2 * q + 2 ≤ 2 * 2 ^ 53 by omega)
  nlinarith

/-- **Inside a shift** both midpoints are half a step away. -/
theorem bitsOfUnits_of_halfStep {num den s q : Nat} (hfin : s * 2 ^ 52 + q ≤ infinityBits)
    (hden : 0 < den) (hs : s = 0 ∨ 2 ^ 52 < q) (hq : q < 2 ^ 53)
    (hlow : 2 * q * (den * 2 ^ s) ≤ 2 * num + den * 2 ^ s)
    (hhigh : 2 * num ≤ 2 * q * (den * 2 ^ s) + den * 2 ^ s)
    (hodd : q % 2 = 1 → 2 * q * (den * 2 ^ s) ≠ 2 * num + den * 2 ^ s ∧
      2 * num ≠ 2 * q * (den * 2 ^ s) + den * 2 ^ s) :
    bitsOfUnits num den = s * 2 ^ 52 + q := by
  have hpow : 0 < den * 2 ^ s := by positivity
  refine bitsOfUnits_eq hfin (hs.imp_right fun hlt => ?_) (quotient_lt hden hq hhigh)
    (roundHalfEven_eq hlow hhigh hodd hpow)
  rw [Nat.le_div_iff_mul_le hden]
  have := Nat.mul_le_mul_right (den * 2 ^ s) (Nat.mul_le_mul_left 2 hlt)
  nlinarith

/-- **At the least significand of a shift** the midpoint below is a quarter of a step away: what lies
between is rounded with the shift below, up to its end. -/
theorem bitsOfUnits_of_quarterStep {num den t : Nat}
    (hfin : (t + 1) * 2 ^ 52 + 2 ^ 52 ≤ infinityBits) (hden : 0 < den)
    (hlow : 2 * 2 ^ 53 * (den * 2 ^ t) ≤ 2 * num + den * 2 ^ t)
    (hhigh : 2 * num ≤ 2 * 2 ^ 52 * (den * 2 ^ (t + 1)) + den * 2 ^ (t + 1)) :
    bitsOfUnits num den = (t + 1) * 2 ^ 52 + 2 ^ 52 := by
  have hdouble : 2 ^ (t + 1) = 2 * 2 ^ t := Nat.pow_succ'
  have hpow : 0 < den * 2 ^ t := by positivity
  by_cases hbelow : 2 ^ 52 * 2 ^ (t + 1) ≤ num / den
  · refine bitsOfUnits_eq hfin (.inr hbelow) (quotient_lt hden (by omega) hhigh)
      (roundHalfEven_eq ?_ hhigh (fun h => ?_) (by positivity))
    · have := (Nat.le_div_iff_mul_le hden).mp hbelow
      nlinarith
    · omega
  · have hcarry : (t + 1) * 2 ^ 52 + 2 ^ 52 = t * 2 ^ 52 + 2 ^ 53 := by omega
    rw [hcarry] at hfin ⊢
    have hlt : num / den < 2 ^ 52 * 2 ^ (t + 1) := Nat.lt_of_not_le hbelow
    have hmul := (Nat.div_lt_iff_lt_mul hden).mp hlt
    refine bitsOfUnits_eq hfin (.inr ?_) (by rw [hdouble] at hlt; omega)
      (roundHalfEven_eq hlow ?_ (fun h => ?_) hpow)
    · rw [Nat.le_div_iff_mul_le hden]
      have := Nat.mul_le_mul_right (den * 2 ^ t) (show 2 * 2 ^ 52 + 1 ≤ 2 * 2 ^ 53 by norm_num)
      nlinarith
    · nlinarith
    · omega

/-- **Rounding gives the word whose interval holds the value.** -/
theorem bitsOfUnits_of_nearest {m num den : Nat} (hpos : 0 < m) (hfin : m < infinityBits)
    (hden : 0 < den) (h : Nearest m num den) : bitsOfUnits num den = m := by
  obtain ⟨s, q, rfl, hs, hq⟩ := exists_shifted m
  have hq0 : 0 < q := by omega
  have hnext : unitsOfBits (s * 2 ^ 52 + q + 1) = (q + 1) * 2 ^ s := by
    rw [Nat.add_assoc]
    exact unitsOfBits_shifted (by omega) (by omega)
  obtain ⟨hlow, hhigh, hodd⟩ := h
  rw [unitsOfBits_shifted hs hq.le] at hlow hhigh hodd
  rw [hnext] at hhigh hodd
  have habove : 2 * num ≤ 2 * q * (den * 2 ^ s) + den * 2 ^ s := by nlinarith
  -- below the least significand of a shift the words stand twice as dense
  rcases unitsOfBits_pred hq0 hs hq with ⟨hs, hpred⟩ | ⟨t, rfl, rfl, hpred⟩
  · rw [hpred] at hlow hodd
    obtain ⟨p, rfl⟩ : ∃ p, q = p + 1 := ⟨q - 1, by omega⟩
    simp only [Nat.add_sub_cancel] at hlow hodd
    refine bitsOfUnits_of_halfStep hfin.le hden hs hq ?_ habove fun h => ?_
    · nlinarith
    · obtain ⟨hne, hne'⟩ := hodd (by omega)
      exact ⟨fun h => hne (by nlinarith), fun h => hne' (by nlinarith)⟩
  · have hbelow : 2 * 2 ^ 53 * (den * 2 ^ t) ≤ 2 * num + den * 2 ^ t := by
      have hdouble : 2 ^ (t + 1) = 2 * 2 ^ t := Nat.pow_succ'
      have := congrArg (· * den) hpred
      nlinarith
    exact bitsOfUnits_of_quarterStep hfin.le hden hbelow habove

/-! ## Decimals -/

/-- A quotient may be reduced and extended. -/
theorem nearest_scale {m num den c : Nat} (hc : 0 < c) :
    Nearest m (c * num) (c * den) ↔ Nearest m num den := by
  have hmul (a : Nat) : a * (c * den) = c * (a * den) := Nat.mul_left_comm ..
  have htwice : 2 * (c * num) = c * (2 * num) := Nat.mul_left_comm ..
  constructor
  · rintro ⟨hlow, hhigh, hodd⟩
    rw [hmul, htwice] at hlow hodd
    rw [hmul, htwice] at hhigh
    rw [hmul] at hodd
    exact ⟨(Nat.mul_le_mul_left_iff hc).mp hlow, (Nat.mul_le_mul_left_iff hc).mp hhigh,
      fun h => (hodd h).imp (mt (congrArg (c * ·))) (mt (congrArg (c * ·)))⟩
  · rintro ⟨hlow, hhigh, hodd⟩
    refine ⟨?_, ?_, fun h => ?_⟩ <;> rw [hmul, htwice]
    · exact Nat.mul_le_mul_left c hlow
    · exact Nat.mul_le_mul_left c hhigh
    · rw [hmul]
      exact (hodd h).imp (mt (Nat.eq_of_mul_eq_mul_left hc)) (mt (Nat.eq_of_mul_eq_mul_left hc))

/-- **`digits * 10 ^ power` is nearest** to the word. -/
def NearestDecimal (m digits : Nat) (power : Int) : Prop :=
  Nearest m (digits * 10 ^ power.toNat * unitsPerOne) (10 ^ (-power).toNat)

/-- A zero may be appended to the digits. -/
theorem nearestDecimal_append_zero {m digits : Nat} {power : Int} :
    NearestDecimal m (10 * digits) (power - 1) ↔ NearestDecimal m digits power := by
  rcases le_or_gt power 0 with h | h
  · have hnum : (power - 1).toNat = power.toNat := by omega
    have hden : (-(power - 1)).toNat = (-power).toNat + 1 := by omega
    rw [NearestDecimal, hnum, hden, Nat.pow_succ', Nat.mul_assoc 10, Nat.mul_assoc 10,
      nearest_scale (by omega), NearestDecimal]
  · have hnum : power.toNat = (power - 1).toNat + 1 := by omega
    have hden : (-(power - 1)).toNat = (-power).toNat := by omega
    rw [NearestDecimal, NearestDecimal, hnum, hden, Nat.pow_succ', Nat.mul_comm 10 digits,
      Nat.mul_assoc digits 10]

/-- … and any number of them. -/
theorem nearestDecimal_append_zeros {m digits : Nat} {power : Int} (count : Nat) :
    NearestDecimal m (digits * 10 ^ count) (power - count) ↔ NearestDecimal m digits power := by
  induction count with
  | zero => simp
  | succ count ih =>
    rw [← ih, ← @nearestDecimal_append_zero _ _ (power - count), Nat.pow_succ',
      Nat.mul_left_comm]
    push_cast
    rw [Int.sub_sub]

/-! ### Powers out of reach -/

theorem two_pow_le_ten_pow (k : Nat) : 2 ^ (3 * k) ≤ 10 ^ k := by
  rw [Nat.pow_mul]
  exact Nat.pow_le_pow_left (by omega) k

/-- Every finite double is below `2 ^ 2099` units. -/
theorem unitsOfBits_lt {m k : Nat} (h : m ≤ infinityBits) (hk : 2099 ≤ k) :
    unitsOfBits m < 2 ^ k := by
  obtain ⟨s, q, rfl, hs, hq⟩ := exists_shifted m
  simp only [infinityBits, Nat.pow_eq] at h
  rw [unitsOfBits_shifted hs hq.le]
  calc q * 2 ^ s < 2 ^ 53 * 2 ^ s := Nat.mul_lt_mul_of_pos_right hq (Nat.two_pow_pos s)
    _ = 2 ^ (53 + s) := (Nat.pow_add 2 53 s).symm
    _ ≤ 2 ^ k := Nat.pow_le_pow_right (by omega) (by omega)

theorem unitsOfBits_pos {m : Nat} (h : 0 < m) : 0 < unitsOfBits m := by
  obtain ⟨s, q, rfl, hs, hq⟩ := exists_shifted m
  rw [unitsOfBits_shifted hs hq.le]
  exact Nat.mul_pos (by omega) (Nat.two_pow_pos s)

/-- The exponent is given a name, so that the power of it is not worked out. -/
theorem exists_unitsPerOne : ∃ k, k = 1074 ∧ unitsPerOne = 2 ^ k := by
  obtain ⟨k, hk⟩ : ∃ k, k = 1074 := ⟨_, rfl⟩
  refine ⟨k, hk, ?_⟩
  unfold unitsPerOne
  rw [← hk]
  rfl

attribute [local irreducible] unitsPerOne

theorem unitsPerOne_pos : 0 < unitsPerOne := by
  obtain ⟨k, -, hk⟩ := exists_unitsPerOne
  rw [hk]
  exact Nat.two_pow_pos k

section Reach

variable {m digits : Nat} {power : Int}

/-- A positive value is at least half a unit. -/
theorem NearestDecimal.half_unit_le (h : NearestDecimal m digits power) (hpos : 0 < m) :
    10 ^ (-power).toNat ≤ 2 * (digits * 10 ^ power.toNat * unitsPerOne) :=
  (Nat.le_mul_of_pos_left _ (Nat.add_pos_right _ (unitsOfBits_pos hpos))).trans h.low

theorem NearestDecimal.digits_pos (h : NearestDecimal m digits power) (hpos : 0 < m) :
    0 < digits := by
  have hhalf := h.half_unit_le hpos
  have : 0 < 10 ^ (-power).toNat := by positivity
  by_contra hzero
  obtain rfl : digits = 0 := by omega
  omega

theorem NearestDecimal.power_le (h : NearestDecimal m digits power) (hpos : 0 < m)
    (hfin : m < infinityBits) : power ≤ 400 := by
  by_contra hlt
  obtain ⟨k, hk, hunit⟩ := exists_unitsPerOne
  have hscale : 2 ^ (k + 3 * power.toNat) ≤ digits * 10 ^ power.toNat * unitsPerOne := by
    rw [Nat.pow_add, Nat.mul_comm, ← hunit]
    exact Nat.mul_le_mul_right _
      ((two_pow_le_ten_pow _).trans (Nat.le_mul_of_pos_left _ (h.digits_pos hpos)))
  have hu := unitsOfBits_lt hfin.le (show 2099 ≤ k + 3 * power.toNat by omega)
  have hv := unitsOfBits_lt (show m + 1 ≤ _ from hfin) (show 2099 ≤ k + 3 * power.toNat by omega)
  have hhigh := h.high
  rw [show (-power).toNat = 0 by omega, Nat.pow_zero, Nat.mul_one] at hhigh
  omega

theorem NearestDecimal.le_power (h : NearestDecimal m digits power) (hpos : 0 < m) :
    -400 ≤ power + digits.log2 := by
  by_contra hlt
  obtain ⟨k, hk, hunit⟩ := exists_unitsPerOne
  have hhalf := h.half_unit_le hpos
  rw [show power.toNat = 0 by omega, Nat.pow_zero, Nat.mul_one] at hhalf
  have hdigits : digits < 2 ^ (digits.log2 + 1) := Nat.lt_log2_self
  have hscale : 2 * (digits * unitsPerOne) < 2 ^ (digits.log2 + 1 + k + 1) := by
    rw [Nat.pow_succ', Nat.pow_add 2 _ k, ← hunit]
    exact Nat.mul_lt_mul_of_pos_left
      (Nat.mul_lt_mul_of_pos_right hdigits unitsPerOne_pos) (by omega)
  have hreach : 2 ^ (digits.log2 + 1 + k + 1) ≤ 10 ^ (-power).toNat :=
    (Nat.pow_le_pow_right (by omega) (by omega)).trans (two_pow_le_ten_pow _)
  omega

end Reach

/-- **A decimal is read as the double it is nearest to.** -/
theorem ofDecimal_of_nearest {m digits : Nat} {power : Int} {negative : Bool} (hpos : 0 < m)
    (hfin : m < infinityBits) (h : NearestDecimal m digits power) :
    ofDecimal negative digits power = ofSignMagnitude negative m := by
  have hdigits := h.digits_pos hpos
  have hupper := h.power_le hpos hfin
  have hlower := h.le_power hpos
  rw [ofDecimal, if_neg (by omega), if_neg (by omega), if_neg (by omega)]
  split
  · rename_i hpower
    have hden : (-power).toNat = 0 := by omega
    rw [NearestDecimal, hden] at h
    rw [ofRatio, Nat.pow_eq, bitsOfUnits_of_nearest hpos hfin Nat.one_pos h]
  · rename_i hpower
    have hnum : power.toNat = 0 := by omega
    rw [NearestDecimal, hnum, Nat.pow_zero, Nat.mul_one] at h
    rw [ofRatio, Nat.pow_eq, bitsOfUnits_of_nearest hpos hfin (Nat.pow_pos (by omega)) h]

end FeatureFlags.Binary64
