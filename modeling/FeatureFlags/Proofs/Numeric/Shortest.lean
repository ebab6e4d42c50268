import FeatureFlags.Numeric.Shortest
import FeatureFlags.Proofs.Numeric.Rounding

/-!
# Proofs/Numeric/Shortest — the shortest digits read back as the double

Every decimal that a grid yields lies in the rounding interval (`nearestDecimal_of_onGrid`), and the
grid of seventeen digits always yields one, since its step is shorter than the way from a double to
either midpoint (`onGrid_isSome`).  So `Binary64.shortest` is nearest to its double
(`nearestDecimal_shortest`).
-/

namespace FeatureFlags

open Binary64

attribute [local irreducible] unitsPerOne

/-! ## Trailing zeros -/

theorem Decimal.nearest_stripZeros {m : Nat} (fuel digits : Nat) (power : Int) :
    NearestDecimal m (stripZeros fuel digits power).digits (stripZeros fuel digits power).power ↔
      NearestDecimal m digits power := by
  induction fuel generalizing digits power with
  | zero => rfl
  | succ fuel ih =>
    rw [stripZeros]
    split
    · rename_i h
      have hdigits : 10 * (digits / 10) = digits := Nat.mul_div_cancel' (Nat.dvd_of_mod_eq_zero h.2)
      rw [ih, ← nearestDecimal_append_zero, hdigits, Int.add_sub_cancel]
    · rfl

namespace Binary64

/-! ## Grids -/

/-- What the interval holds is nearest to the double. -/
theorem nearestDecimal_of_holds {x : Binary64} {power : Int} {n : Nat}
    (h : x.roundingInterval.holds (10 ^ (-power).toNat) (2 * unitsPerOne * 10 ^ power.toNat) n) :
    NearestDecimal x.magnitudeBits n power := by
  have hnum : n * (2 * unitsPerOne * 10 ^ power.toNat) =
      2 * (n * 10 ^ power.toNat * unitsPerOne) := by ring
  simp only [RoundingInterval.holds, roundingInterval, hnum, units] at h
  split at h
  · rename_i heven
    simp only [Bool.and_eq_true, decide_eq_true_eq, beq_iff_eq] at h heven
    exact ⟨h.1, h.2, fun hodd => by omega⟩
  · simp only [Bool.and_eq_true, decide_eq_true_eq] at h
    exact ⟨h.1.le, h.2.le, fun _ => ⟨h.1.ne, h.2.ne⟩⟩

/-- **The two neighbours on a grid**, the nearer one first. -/
theorem RoundingInterval.exists_onGrid_eq (i : RoundingInterval) (tie : Tie) (power : Int)
    {scale den : Nat} (hscale : Nat.pow 10 (-power).toNat = scale)
    (hden : 2 * unitsPerOne * Nat.pow 10 power.toNat = den) :
    ∃ first second,
      ((first = i.value * scale / den ∧ 2 * (i.value * scale % den) ≤ den) ∨
        (first = i.value * scale / den + 1 ∧ den ≤ 2 * (i.value * scale % den))) ∧
      i.onGrid tie power = if i.holds scale den first then some ⟨first, power⟩
        else if i.holds scale den second then some ⟨second, power⟩ else none := by
  unfold onGrid
  rw [hscale, hden]
  refine ⟨_, _, ?_, rfl⟩
  cases hcompare : compare (2 * (i.value * scale % den)) den with
  | lt => exact .inl ⟨rfl, (Nat.compare_eq_lt.mp hcompare).le⟩
  | gt => exact .inr ⟨rfl, (Nat.compare_eq_gt.mp hcompare).le⟩
  | eq =>
    have heq := Nat.compare_eq_eq.mp hcompare
    cases tie with
    | up => exact .inr ⟨rfl, heq.ge⟩
    | toEven =>
      by_cases htie : (i.value * scale / den % 2 == 1) = true
      · exact .inr ⟨if_pos htie, heq.ge⟩
      · exact .inl ⟨if_neg htie, heq.le⟩

/-- **A grid yields a nearest decimal**, if any. -/
theorem nearestDecimal_of_onGrid {x : Binary64} {tie : Tie} {power : Int} {d : Decimal}
    (h : x.roundingInterval.onGrid tie power = some d) :
    NearestDecimal x.magnitudeBits d.digits d.power := by
  obtain ⟨first, second, -, heq⟩ :=
    x.roundingInterval.exists_onGrid_eq tie power rfl rfl
  rw [heq] at h
  split at h
  · rename_i hfirst
    obtain rfl := Option.some.inj h
    exact nearestDecimal_of_holds hfirst
  · split at h
    · rename_i hsecond
      obtain rfl := Option.some.inj h
      exact nearestDecimal_of_holds hsecond
    · cases h

/-- A positive word and the one below it differ by at least one part in `2 ^ 53`. -/
theorem units_le_below {m : Nat} (hpos : 0 < m) :
    unitsOfBits m + 2 ^ 53 * unitsOfBits (m - 1) ≤ 2 ^ 53 * unitsOfBits m := by
  obtain ⟨s, q, rfl, hs, hq⟩ := exists_shifted m
  rw [unitsOfBits_shifted hs hq.le]
  rcases unitsOfBits_pred (by omega) hs hq with ⟨-, hpred⟩ | ⟨t, rfl, rfl, hpred⟩
  · obtain ⟨p, rfl⟩ : ∃ p, q = p + 1 := ⟨q - 1, by omega⟩
    rw [hpred, Nat.add_sub_cancel]
    have := Nat.mul_le_mul_right (2 ^ s) hq.le
    have : (p + 1) * 2 ^ s = p * 2 ^ s + 2 ^ s := Nat.succ_mul ..
    omega
  · have : 2 ^ (t + 1) = 2 * 2 ^ t := Nat.pow_succ'
    omega

/-- … and so do a word and the one above it. -/
theorem units_le_above (m : Nat) :
    unitsOfBits m + 2 ^ 53 * unitsOfBits m ≤ 2 ^ 53 * unitsOfBits (m + 1) := by
  obtain ⟨s, q, rfl, hs, hq⟩ := exists_shifted m
  rw [unitsOfBits_shifted hs hq.le, Nat.add_assoc, unitsOfBits_shifted (by omega) (by omega)]
  have := Nat.mul_le_mul_right (2 ^ s) hq.le
  have : (q + 1) * 2 ^ s = q * 2 ^ s + 2 ^ s := Nat.succ_mul ..
  omega

section Grid

variable {x : Binary64}

/-- What is at most half a short step away from the double lies in its interval. -/
theorem holds_of_close {scale step n : Nat} (hpos : 0 < x.magnitudeBits) (hunit : 0 < step)
    (hstep : step * 10 ^ 16 ≤ x.units * scale)
    (hlow : 2 * (2 * (x.units * scale)) ≤ 2 * (n * (2 * step)) + 2 * step)
    (hhigh : 2 * (n * (2 * step)) ≤ 2 * (2 * (x.units * scale)) + 2 * step) :
    x.roundingInterval.holds scale (2 * step) n := by
  have hbelow := Nat.mul_le_mul_right scale (units_le_below hpos)
  have habove := Nat.mul_le_mul_right scale (units_le_above x.magnitudeBits)
  simp only [RoundingInterval.holds, roundingInterval, units, Nat.add_mul, Nat.mul_assoc] at *
  split <;> simp only [Bool.and_eq_true, decide_eq_true_eq] <;> omega

/-- **A grid whose step is short** beside the double yields a decimal. -/
theorem onGrid_isSome {tie : Tie} {power : Int} (hpos : 0 < x.magnitudeBits)
    (hstep : unitsPerOne * 10 ^ power.toNat * 10 ^ 16 ≤ x.units * 10 ^ (-power).toNat) :
    (x.roundingInterval.onGrid tie power).isSome := by
  obtain ⟨first, second, hfirst, heq⟩ := x.roundingInterval.exists_onGrid_eq tie power
    (show _ = 10 ^ (-power).toNat from rfl) (Nat.mul_assoc 2 unitsPerOne (10 ^ power.toNat))
  have hunit : 0 < unitsPerOne * 10 ^ power.toNat := Nat.mul_pos unitsPerOne_pos (by positivity)
  rw [show x.roundingInterval.value = 2 * x.units from rfl, Nat.mul_assoc] at hfirst
  generalize unitsPerOne * 10 ^ power.toNat = step at *
  have hdiv := Nat.div_add_mod (2 * (x.units * 10 ^ (-power).toNat)) (2 * step)
  have hfirst : x.roundingInterval.holds (10 ^ (-power).toNat) (2 * step) first := by
    rcases hfirst with ⟨rfl, hle⟩ | ⟨rfl, hge⟩
    · rw [Nat.mul_comm (2 * step)] at hdiv
      exact holds_of_close hpos hunit hstep (by omega) (by omega)
    · rw [Nat.mul_comm (2 * step)] at hdiv
      have hmod := Nat.mod_lt (2 * (x.units * 10 ^ (-power).toNat)) (show 0 < 2 * step by omega)
      have hnext := Nat.add_one_mul (2 * (x.units * 10 ^ (-power).toNat) / (2 * step)) (2 * step)
      exact holds_of_close hpos hunit hstep (by omega) (by omega)
  rw [heq, if_pos hfirst]
  rfl

/-- The leading power is the least one above the double, up to the accuracy of the division. -/
theorem exists_leadingPower_eq (hpos : 0 < x.magnitudeBits) :
    ∃ count reach : Nat, x.leadingPower = count - reach ∧ 400 ≤ reach ∧ 0 < count ∧
      unitsPerOne * 10 ^ (count - 1) ≤ x.units * 10 ^ reach := by
  obtain ⟨reach, hreach⟩ : ∃ reach, 400 = reach := ⟨_, rfl⟩
  have hscaled : unitsPerOne ≤ x.units * 10 ^ reach := by
    obtain ⟨k, hk, hunit⟩ := exists_unitsPerOne
    calc unitsPerOne = 2 ^ k := hunit
      _ ≤ 2 ^ (3 * reach) := Nat.pow_le_pow_right (by omega) (by omega)
      _ ≤ 10 ^ reach := two_pow_le_ten_pow reach
      _ ≤ x.units * 10 ^ reach := Nat.le_mul_of_pos_left _ (unitsOfBits_pos hpos)
  generalize hwhole : x.units * 10 ^ reach / unitsPerOne = whole
  refine ⟨(Nat.toDigits 10 whole).length, reach, ?_, hreach.le, Nat.length_toDigits_pos, ?_⟩
  · rw [leadingPower, hreach, Nat.pow_eq, hwhole, Decimal.digitCount]
    omega
  · rw [Nat.mul_comm, ← Nat.le_div_iff_mul_le unitsPerOne_pos, hwhole]
    by_cases hone : (Nat.toDigits 10 whole).length = 1
    · rw [hone, ← hwhole, Nat.le_div_iff_mul_le unitsPerOne_pos]
      simpa using hscaled
    · have hlen := Nat.length_toDigits_pos (b := 10) (n := whole)
      refine Nat.le_of_not_lt fun hlt => ?_
      have := (Nat.length_toDigits_le_iff (by omega) (by omega)).mpr hlt
      omega

/-- The grid of seventeen digits yields a decimal. -/
theorem onGrid_seventeen_isSome {tie : Tie} (hpos : 0 < x.magnitudeBits) :
    (x.roundingInterval.onGrid tie (x.leadingPower - 17)).isSome := by
  obtain ⟨count, reach, hcount, -, hdigits, hle⟩ := exists_leadingPower_eq hpos
  refine onGrid_isSome hpos ?_
  generalize ha : (x.leadingPower - 17).toNat = a
  generalize hb : (-(x.leadingPower - 17)).toNat = b
  have hexp : a + 16 + reach = count - 1 + b := by omega
  refine Nat.le_of_mul_le_mul_right ?_ (show 0 < 10 ^ reach by positivity)
  calc unitsPerOne * 10 ^ a * 10 ^ 16 * 10 ^ reach
      = unitsPerOne * 10 ^ (a + 16 + reach) := by
        rw [Nat.mul_assoc, Nat.mul_assoc, ← Nat.mul_assoc (10 ^ a), ← Nat.pow_add, ← Nat.pow_add]
    _ = unitsPerOne * 10 ^ (count - 1) * 10 ^ b := by rw [hexp, Nat.pow_add, Nat.mul_assoc]
    _ ≤ x.units * 10 ^ reach * 10 ^ b := Nat.mul_le_mul_right _ hle
    _ = x.units * 10 ^ b * 10 ^ reach := Nat.mul_right_comm ..

end Grid

/-- **The shortest decimal is nearest to its double.** -/
theorem nearestDecimal_shortest {x : Binary64} (tie : Tie) (hpos : 0 < x.magnitudeBits) :
    NearestDecimal x.magnitudeBits (x.shortest tie).digits (x.shortest tie).power := by
  have hzero : x.isZero = false := by simp [isZero, Nat.pos_iff_ne_zero.mp hpos]
  simp only [shortest, hzero]
  split
  · contradiction
  · split
    · rename_i d hd
      obtain ⟨n, -, hgrid⟩ := List.exists_of_findSome?_eq_some hd
      exact (Decimal.nearest_stripZeros ..).mpr (nearestDecimal_of_onGrid hgrid)
    · rename_i hnone
      have hgrid := List.findSome?_eq_none_iff.mp hnone 16 (by simp)
      have hsome := @onGrid_seventeen_isSome x tie hpos
      simp_all

end Binary64

end FeatureFlags
