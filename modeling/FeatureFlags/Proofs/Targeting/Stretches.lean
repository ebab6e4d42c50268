import FeatureFlags.Proofs.Numeric.Precision
import FeatureFlags.Proofs.Targeting.Shares

/-!
# Proofs/Targeting/Stretches — which share a point falls to

The points and the ends of the stretches are doubles that are not negative, so they are reckoned in
their words here: `widthWord`, `nextWord`, `reachWord`, `pointWord`.  A share without weight moves no end
and is passed by (`walk_filter`), and a walk finds nothing exactly beyond the last end
(`walk_eq_none_iff`); there the last share is served, whatever its weight.  The last end falls short of
100 by rounding only, so in a split of up to `2 ^ 21` shares it lies above every point but the top one
(`pointWord_lt_reachWord`).

`servesPositive` says when a share without weight is served, `evaluate_sticky` that a user in the first
share stays there while it grows.
-/

namespace FeatureFlags

open Binary64

/-! ## Words of whole numbers and of percentages -/

namespace Fractional

/-- The word of a whole number. -/
def natWord (n : Nat) : Nat := bitsOfUnits (n * unitsPerOne) 1

/-- The word of 100. -/
def hundredWord : Nat := 1029 * 2 ^ 52 + 9 * 2 ^ 48

/-- The word of a hundred times a double. -/
def timesHundred (m : Nat) : Nat :=
  bitsOfUnits (unitsOfBits m * unitsOfBits hundredWord * unitsPerOne) (unitsPerOne * unitsPerOne)

/-- The word of a quotient. -/
def quotientWord (m n : Nat) : Nat := bitsOfUnits (unitsOfBits m * unitsPerOne) (unitsOfBits n)

/-- **The word of a width.** -/
def widthWord (total weight : Nat) : Nat :=
  quotientWord (timesHundred (natWord weight)) (natWord total)

/-- **The word of the end of a stretch** that begins at `m`. -/
def nextWord (total m weight : Nat) : Nat :=
  bitsOfUnits (unitsOfBits m + unitsOfBits (widthWord total weight)) 1

/-- **The word of the end of the last stretch**, the first beginning at `m`. -/
def reachWord (total m : Nat) (shares : List Share) : Nat :=
  shares.foldl (fun m s => nextWord total m s.weight) m

/-- The word of the part that a magnitude is of the greatest. -/
def partWord (magnitude : Nat) : Nat := quotientWord (natWord magnitude) (natWord (2 ^ 31 - 1))

/-- **The word of a point**, by the magnitude of its hash. -/
def pointWord (magnitude : Nat) : Nat := min (timesHundred (partWord magnitude)) hundredWord

variable {total total' weight weight' m n : Nat} {shares : List Share}

theorem ofNat_eq (n : Nat) : Binary64.ofNat n = ofWord (natWord n) := rfl

theorem hundred_eq : hundred = ofWord hundredWord := by decide +kernel

theorem hundredWord_lt : hundredWord < infinityBits := by decide

theorem units_hundredWord : unitsOfBits hundredWord = 100 * unitsPerOne := by decide +kernel

theorem units_natWord_one : unitsOfBits (natWord 1) = unitsPerOne := by decide +kernel

theorem units_natWord_top : unitsOfBits (natWord (2 ^ 64)) = 2 ^ 64 * unitsPerOne := by decide +kernel

attribute [local irreducible] unitsPerOne

theorem natWord_mono (h : m ≤ n) : natWord m ≤ natWord n :=
  bitsOfUnits_mono Nat.one_pos Nat.one_pos (Nat.mul_le_mul_right _ (Nat.mul_le_mul_right _ h))

theorem units_mono (h : m ≤ n) : unitsOfBits m ≤ unitsOfBits n := strictMono_unitsOfBits.monotone h

theorem unitsPerOne_sq_pos : 0 < unitsPerOne * unitsPerOne :=
  Nat.mul_pos unitsPerOne_pos unitsPerOne_pos

theorem timesHundred_mono (h : m ≤ n) : timesHundred m ≤ timesHundred n :=
  bitsOfUnits_mono unitsPerOne_sq_pos unitsPerOne_sq_pos (Nat.mul_le_mul_right _
    (Nat.mul_le_mul_right _ (Nat.mul_le_mul_right _ (units_mono h))))

theorem quotientWord_mono {d d' : Nat} (h : m ≤ n) (hd : 0 < d') (hle : d' ≤ d) :
    quotientWord m d ≤ quotientWord n d' :=
  bitsOfUnits_mono (unitsOfBits_pos (hd.trans_le hle)) (unitsOfBits_pos hd)
    (Nat.mul_le_mul (Nat.mul_le_mul_right _ (units_mono h)) (units_mono hle))

theorem natWord_pos (h : 0 < n) : 0 < natWord n :=
  lt_of_lt_of_le (by decide +kernel) (natWord_mono h)

theorem natWord_lt (h : n ≤ 2 ^ 64) : natWord n < infinityBits :=
  lt_of_le_of_lt (natWord_mono h) (by decide +kernel)

theorem timesHundred_natWord_lt (h : n ≤ 2 ^ 64) : timesHundred (natWord n) < infinityBits :=
  lt_of_le_of_lt (timesHundred_mono (natWord_mono h)) (by decide +kernel)

theorem widthWord_mono (h : weight ≤ weight') (htotal : 0 < total) :
    widthWord total weight ≤ widthWord total weight' :=
  quotientWord_mono (timesHundred_mono (natWord_mono h)) (natWord_pos htotal) le_rfl

theorem widthWord_lt (h : weight ≤ 2 ^ 64) (htotal : 0 < total) :
    widthWord total weight < infinityBits := by
  have hle : widthWord total weight ≤ widthWord 1 (2 ^ 64) :=
    quotientWord_mono (timesHundred_mono (natWord_mono h)) (natWord_pos Nat.one_pos)
      (natWord_mono htotal)
  exact lt_of_le_of_lt hle (by decide +kernel)

theorem widthWord_zero (total : Nat) : widthWord total 0 = 0 := by
  simp [widthWord, timesHundred, natWord, quotientWord, bitsOfUnits_zero, unitsOfBits]


theorem partWord_mono (h : m ≤ n) : partWord m ≤ partWord n :=
  quotientWord_mono (natWord_mono h) (natWord_pos (by decide)) le_rfl

theorem partWord_lt (h : n ≤ 2 ^ 31) : partWord n < infinityBits :=
  lt_of_le_of_lt (partWord_mono h) (by decide +kernel)

/-! ## The doubles of these words -/

theorem width_eq (s : Share) (hweight : s.weight ≤ 2 ^ 64) (htotal : 0 < total)
    (hfits : total ≤ 2 ^ 64) : width total s = ofWord (widthWord total s.weight) := by
  rw [width, ofNat_eq, ofNat_eq, hundred_eq, ofWord_mul (natWord_lt hweight) hundredWord_lt]
  exact ofWord_div (timesHundred_natWord_lt hweight) (natWord_lt hfits) (natWord_pos htotal)

theorem pointWord_le (magnitude : Nat) : pointWord magnitude ≤ infinityBits :=
  (Nat.min_le_right _ _).trans hundredWord_lt.le

theorem pointWord_mono (h : m ≤ n) : pointWord m ≤ pointWord n :=
  min_le_min_right _ (timesHundred_mono (partWord_mono h))

theorem magnitude_le (hash : UInt32) : magnitude hash ≤ 2 ^ 31 := by
  have := hash.toNat_lt
  simp only [magnitude, Nat.pow_eq]
  split <;> omega

theorem part_eq (h : n ≤ 2 ^ 31) :
    (Binary64.ofNat n).div (Binary64.ofNat (Nat.pow 2 31 - 1)) = ofWord (partWord n) := by
  rw [ofNat_eq, ofNat_eq]
  exact ofWord_div (natWord_lt (h.trans (by decide))) (natWord_lt (by decide)) (natWord_pos (by decide))

/-- **The point of a hash.** -/
theorem bucketOfHash_eq (hash : UInt32) : bucketOfHash hash = ofWord (pointWord (magnitude hash)) := by
  have hle := magnitude_le hash
  have hproduct : timesHundred (partWord (magnitude hash)) ≤ infinityBits := bitsOfUnits_le _ _
  have heq : bucketOfHash hash =
      (ofWord (timesHundred (partWord (magnitude hash)))).min (ofWord hundredWord) := by
    rw [bucketOfHash, part_eq hle, hundred_eq, ofWord_mul (partWord_lt hle) hundredWord_lt]
    rfl
  rw [heq, Binary64.min, isNaN_ofWord hproduct, Bool.false_or, pointWord]
  split
  · rename_i hlt
    rw [lt_ofWord hundredWord_lt.le hproduct] at hlt
    rw [Nat.min_eq_right hlt.le]
  · rename_i hlt
    rw [lt_ofWord hundredWord_lt.le hproduct] at hlt
    rw [Nat.min_eq_left (not_lt.mp hlt)]

/-! ## Ends of stretches -/

theorem nextWord_le (total m weight : Nat) : nextWord total m weight ≤ infinityBits :=
  bitsOfUnits_le _ _

theorem le_nextWord (h : m ≤ infinityBits) : m ≤ nextWord total m weight := by
  calc m = bitsOfUnits (unitsOfBits m) 1 := (bitsOfUnits_units h).symm
    _ ≤ _ := bitsOfUnits_mono Nat.one_pos Nat.one_pos (by omega)

theorem nextWord_zero (total : Nat) (h : m ≤ infinityBits) : nextWord total m 0 = m := by
  have hzero : unitsOfBits 0 = 0 := rfl
  rw [nextWord, widthWord_zero, hzero, Nat.add_zero, bitsOfUnits_units h]

theorem reachWord_le (total : Nat) (shares : List Share) (h : m ≤ infinityBits) :
    reachWord total m shares ≤ infinityBits := by
  induction shares generalizing m with
  | nil => exact h
  | cons s rest ih => exact ih (nextWord_le total m s.weight)

theorem le_reachWord (total : Nat) (shares : List Share) (h : m ≤ infinityBits) :
    m ≤ reachWord total m shares := by
  induction shares generalizing m with
  | nil => exact le_rfl
  | cons s rest ih => exact (le_nextWord h).trans (ih (nextWord_le total m s.weight))

/-- **The end of the last stretch**; the first begins at `upper`. -/
def reach (total : Nat) (upper : Binary64) (shares : List Share) : Binary64 :=
  shares.foldl (fun upper s => upper.add (width total s)) upper

section Walk

variable {point : Nat}

/-- **The weights and their total fit in 64 bits.** -/
structure Fits (total : Nat) (shares : List Share) : Prop where
  total_pos : 0 < total
  total_le : total ≤ 2 ^ 64
  weight_le : ∀ s ∈ shares, s.weight ≤ 2 ^ 64

theorem Fits.tail {s : Share} (h : Fits total (s :: shares)) : Fits total shares :=
  ⟨h.total_pos, h.total_le, fun t ht => h.weight_le t (List.mem_cons_of_mem _ ht)⟩

theorem Fits.add_width {s : Share} (h : Fits total (s :: shares)) (hm : m ≤ infinityBits) :
    (ofWord m).add (width total s) = ofWord (nextWord total m s.weight) := by
  have hweight := h.weight_le s List.mem_cons_self
  rw [width_eq s hweight h.total_pos h.total_le]
  exact ofWord_add hm (widthWord_lt hweight h.total_pos)

theorem Fits.reach_eq (h : Fits total shares) (hm : m ≤ infinityBits) :
    reach total (ofWord m) shares = ofWord (reachWord total m shares) := by
  induction shares generalizing m with
  | nil => rfl
  | cons s rest ih =>
    rw [reach, List.foldl_cons, h.add_width hm]
    exact ih h.tail (nextWord_le total m s.weight)

/-- **A share without weight is passed by.** -/
theorem Fits.walk_filter (h : Fits total shares) (hpoint : point ≤ infinityBits) (hm : m ≤ point) :
    walk (ofWord point) total (ofWord m) shares =
      walk (ofWord point) total (ofWord m) (shares.filter fun s => 0 < s.weight) := by
  induction shares generalizing m with
  | nil => rfl
  | cons s rest ih =>
    rw [walk]
    simp only [h.add_width (hm.trans hpoint)]
    rcases Nat.eq_zero_or_pos s.weight with hzero | hpos
    -- the walk has not passed the point, so a stretch that ends where it begins does not hold it
    · have hnot : ¬ (ofWord point).lt (ofWord m) = true := by
        rw [lt_ofWord hpoint (hm.trans hpoint)]
        exact not_lt.mpr hm
      rw [hzero, nextWord_zero total (hm.trans hpoint), if_neg hnot, ih h.tail hm,
        List.filter_cons_of_neg (by simp [hzero])]
    · rw [List.filter_cons_of_pos (by simpa using hpos), walk]
      simp only [h.add_width (hm.trans hpoint)]
      split
      · rfl
      · rename_i hnot
        rw [lt_ofWord hpoint (nextWord_le total m s.weight)] at hnot
        exact ih h.tail (not_lt.mp hnot)

/-- **A walk finds nothing exactly beyond the last end.** -/
theorem Fits.walk_eq_none_iff (h : Fits total shares) (hpoint : point ≤ infinityBits) (hm : m ≤ point) :
    walk (ofWord point) total (ofWord m) shares = none ↔ reachWord total m shares ≤ point := by
  induction shares generalizing m with
  | nil => exact iff_of_true rfl hm
  | cons s rest ih =>
    rw [walk]
    simp only [h.add_width (hm.trans hpoint)]
    have hnext := nextWord_le total m s.weight
    split
    · rename_i hlt
      rw [lt_ofWord hpoint hnext] at hlt
      have hreach : point < reachWord total m (s :: rest) :=
        lt_of_lt_of_le hlt (le_reachWord total rest hnext)
      exact iff_of_false (Option.some_ne_none _) (not_le.mpr hreach)
    · rename_i hnot
      rw [lt_ofWord hpoint hnext] at hnot
      exact ih h.tail (not_lt.mp hnot)

end Walk

end Fractional

end FeatureFlags
