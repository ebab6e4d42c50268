import FeatureFlags.Proofs.Targeting.Stretches
import Mathlib.Tactic.GCongr

/-!
# Proofs/Targeting/Rollout — whom a split serves what

Rounding shortens the stretches by a few parts in `2 ^ 53` each, so in a split of up to `2 ^ 21` shares
the last end lies above every point but the top one (`pointWord_lt_reachWord`).  `servesPositive` says
when a share without weight is served: if it is the last one, beyond the last end.  `evaluate_sticky`
says that a user who is served the first share is still served it when that share grows.
-/

namespace FeatureFlags.Fractional

open Binary64

variable {total weight m n : Nat} {shares : List Share}

/-! ## How far the stretches reach -/

section Reach

theorem two_pow_le_unitsPerOne : 2 ^ 116 ≤ unitsPerOne := by decide +kernel

theorem units_timesHundred_one : unitsOfBits (timesHundred (natWord 1)) = 100 * unitsPerOne := by
  decide +kernel

/-- The highest point below the top leaves room for many roundings. -/
theorem units_pointWord_lt : 2 ^ 53 * unitsOfBits (pointWord (2 ^ 31 - 2)) <
    (2 ^ 53 - (2 ^ 21 + 4)) * (100 * unitsPerOne) := by decide +kernel

theorem hundredWord_le_pointWord : hundredWord ≤ pointWord (2 ^ 31 - 1) := by decide +kernel

theorem unitsOfBits_zero : unitsOfBits 0 = 0 := rfl

-- from here on only what is proved of these numbers matters; they are too large to be unfolded
attribute [local irreducible] unitsPerOne unitsOfBits bitsOfUnits kept hundredWord

theorem unitsPerOne_pos_rat : (0 : ℚ) < unitsPerOne := by exact_mod_cast unitsPerOne_pos

theorem kept_mul_le_natWord (h : n ≤ 2 ^ 64) : kept * (n * unitsPerOne) ≤ unitsOfBits (natWord n) := by
  have := kept_mul_le_units (.inl rfl) Nat.one_pos (natWord_lt h)
  rwa [Nat.cast_one, div_one, Nat.cast_mul] at this

theorem kept_mul_natWord_le (h : n ≤ 2 ^ 64) : kept * unitsOfBits (natWord n) ≤ n * unitsPerOne := by
  have := kept_mul_units_le (.inl rfl) Nat.one_pos (natWord_lt h)
  rwa [Nat.cast_one, div_one, Nat.cast_mul] at this

theorem kept_mul_le_timesHundred (hpos : 0 < n) (h : n ≤ 2 ^ 64) :
    kept * (unitsOfBits (natWord n) * 100) ≤ unitsOfBits (timesHundred (natWord n)) := by
  have hone : unitsPerOne ≤ unitsOfBits (natWord n) := units_natWord_one ▸ units_mono (natWord_mono hpos)
  have hfine : IsFine (unitsOfBits (natWord n) * unitsOfBits hundredWord * unitsPerOne)
      (unitsPerOne * unitsPerOne) := by
    rw [units_hundredWord]
    refine .inr ?_
    calc 2 ^ 52 * (unitsPerOne * unitsPerOne)
        ≤ 100 * unitsPerOne * (unitsPerOne * unitsPerOne) := by
          refine Nat.mul_le_mul_right _ ?_
          have := two_pow_le_unitsPerOne
          omega
      _ = unitsPerOne * (100 * unitsPerOne) * unitsPerOne := by ring
      _ ≤ _ := by gcongr
  have hbound := kept_mul_le_units hfine unitsPerOne_sq_pos (timesHundred_natWord_lt h)
  rw [units_hundredWord] at hbound
  have hunit := unitsPerOne_pos_rat
  have hquot : (((unitsOfBits (natWord n) * (100 * unitsPerOne) * unitsPerOne : Nat) : ℚ) /
      ((unitsPerOne * unitsPerOne : Nat) : ℚ)) = unitsOfBits (natWord n) * 100 := by
    push_cast
    field_simp
  rw [hquot] at hbound
  rwa [timesHundred, units_hundredWord]

theorem kept_mul_le_quotient (hweight : 0 < weight) (h : weight ≤ 2 ^ 64) (htotal : 0 < total)
    (hfits : total ≤ 2 ^ 64) :
    kept * (unitsOfBits (timesHundred (natWord weight)) * unitsPerOne / unitsOfBits (natWord total)) ≤
      unitsOfBits (widthWord total weight) := by
  have hlow : 100 * unitsPerOne ≤ unitsOfBits (timesHundred (natWord weight)) :=
    units_timesHundred_one ▸ units_mono (timesHundred_mono (natWord_mono hweight))
  have hhigh : unitsOfBits (natWord total) ≤ 2 ^ 64 * unitsPerOne :=
    units_natWord_top ▸ units_mono (natWord_mono hfits)
  have hfine : IsFine (unitsOfBits (timesHundred (natWord weight)) * unitsPerOne)
      (unitsOfBits (natWord total)) := by
    refine .inr ?_
    calc 2 ^ 52 * unitsOfBits (natWord total) ≤ 2 ^ 52 * (2 ^ 64 * unitsPerOne) := by gcongr
      _ = 2 ^ 116 * unitsPerOne := by ring
      _ ≤ 100 * unitsPerOne * unitsPerOne := by
        refine Nat.mul_le_mul_right _ ?_
        have := two_pow_le_unitsPerOne
        omega
      _ ≤ _ := by gcongr
  have hbound := kept_mul_le_units hfine (unitsOfBits_pos (natWord_pos htotal)) (widthWord_lt h htotal)
  rwa [Nat.cast_mul] at hbound

/-- **A width is shortened by four roundings** at most. -/
theorem le_units_widthWord (h : weight ≤ 2 ^ 64) (htotal : 0 < total) (hfits : total ≤ 2 ^ 64) :
    kept ^ 4 * (100 * unitsPerOne * (weight / total)) ≤ unitsOfBits (widthWord total weight) := by
  rcases Nat.eq_zero_or_pos weight with rfl | hweight
  · simp
  have hkept := kept_nonneg
  have hunit := unitsPerOne_pos_rat
  have hdivisor : (0 : ℚ) < unitsOfBits (natWord total) := by
    exact_mod_cast unitsOfBits_pos (natWord_pos htotal)
  have htotal' : (0 : ℚ) < total := by exact_mod_cast htotal
  have hrate : kept / total ≤ unitsPerOne / unitsOfBits (natWord total) := by
    rw [div_le_div_iff₀ htotal' hdivisor]
    linarith [kept_mul_natWord_le hfits]
  calc kept ^ 4 * (100 * unitsPerOne * (weight / total))
      = kept * (kept * (kept * (weight * unitsPerOne) * 100) * (kept / total)) := by ring
    _ ≤ kept * (kept * (unitsOfBits (natWord weight) * 100) *
          (unitsPerOne / unitsOfBits (natWord total))) := by
        gcongr
        exact kept_mul_le_natWord h
    _ ≤ kept * (unitsOfBits (timesHundred (natWord weight)) *
          (unitsPerOne / unitsOfBits (natWord total))) := by
        gcongr
        exact kept_mul_le_timesHundred hweight h
    _ ≤ _ := by
        rw [← mul_div_assoc]
        exact kept_mul_le_quotient hweight h htotal hfits

/-- **The last end is short by one more rounding a share**, unless it is infinite. -/
theorem Fits.le_units_reachWord (h : Fits total shares) (hm : m ≤ infinityBits)
    (hfin : reachWord total m shares < infinityBits) :
    kept ^ shares.length *
        (unitsOfBits m + kept ^ 4 * (100 * unitsPerOne * (weightSum shares / total))) ≤
      unitsOfBits (reachWord total m shares) := by
  induction shares generalizing m with
  | nil => simp [weightSum, reachWord]
  | cons s rest ih =>
    have hnext : nextWord total m s.weight < infinityBits :=
      lt_of_le_of_lt (le_reachWord total rest (nextWord_le total m s.weight)) hfin
    have hstep := kept_mul_le_units (.inl rfl) Nat.one_pos hnext
    have hwidth := le_units_widthWord (h.weight_le s List.mem_cons_self) h.total_pos h.total_le
    have hsum : (weightSum (s :: rest) : ℚ) = s.weight + weightSum rest := by
      simp [weightSum]
    rw [Nat.cast_one, div_one, Nat.cast_add] at hstep
    have hkept := kept_nonneg
    have hrest : (0 : ℚ) ≤ kept ^ 4 * (100 * unitsPerOne * (weightSum rest / total)) := by positivity
    -- one factor goes into the step's own rounding; what is to come would bear it as well
    calc kept ^ (s :: rest).length *
          (unitsOfBits m + kept ^ 4 * (100 * unitsPerOne * (weightSum (s :: rest) / total)))
        = kept ^ rest.length *
            (kept * (unitsOfBits m + kept ^ 4 * (100 * unitsPerOne * (s.weight / total))) +
              kept * (kept ^ 4 * (100 * unitsPerOne * (weightSum rest / total)))) := by
          rw [hsum, List.length_cons]
          ring
      _ ≤ kept ^ rest.length * (unitsOfBits (nextWord total m s.weight) +
            kept ^ 4 * (100 * unitsPerOne * (weightSum rest / total))) := by
          gcongr ?_ * (?_ + ?_)
          · exact (mul_le_mul_of_nonneg_left (by linarith) hkept).trans hstep
          · exact mul_le_of_le_one_left hrest kept_le_one
      _ ≤ _ := ih h.tail (nextWord_le total m s.weight) hfin

/-- **Below the top every point is reached**, unless there are very many shares. -/
theorem Fits.pointWord_lt_reachWord (h : Fits total shares) (htotal : total = weightSum shares)
    (hlength : shares.length ≤ 2 ^ 21) {magnitude : Nat} (hmagnitude : magnitude < 2 ^ 31 - 1) :
    pointWord magnitude < reachWord total 0 shares := by
  by_contra hnot
  have hle : reachWord total 0 shares ≤ pointWord (2 ^ 31 - 2) :=
    (not_lt.mp hnot).trans (pointWord_mono (by omega))
  have hfin : reachWord total 0 shares < infinityBits :=
    lt_of_le_of_lt (hle.trans (Nat.min_le_right _ _)) hundredWord_lt
  have hunits : (unitsOfBits (reachWord total 0 shares) : ℚ) ≤ unitsOfBits (pointWord (2 ^ 31 - 2)) := by
    exact_mod_cast units_mono hle
  have hroom : (2 ^ 53 * unitsOfBits (pointWord (2 ^ 31 - 2)) : ℚ) <
      (2 ^ 53 - (2 ^ 21 + 4)) * (100 * unitsPerOne) := by
    have := units_pointWord_lt
    have hcast : (((2 ^ 53 - (2 ^ 21 + 4) : Nat)) : ℚ) = 2 ^ 53 - (2 ^ 21 + 4) := by norm_num
    rw [← hcast]
    exact_mod_cast this
  have htotal' : (weightSum shares : ℚ) / total = 1 := by
    rw [← htotal]
    exact div_self (by exact_mod_cast h.total_pos.ne')
  have hreach := h.le_units_reachWord (Nat.zero_le _) hfin
  rw [htotal', unitsOfBits_zero, Nat.cast_zero, zero_add, mul_one, ← mul_assoc, ← pow_add] at hreach
  have hkept := one_sub_le_kept_pow (shares.length + 4)
  have hcount : ((shares.length + 4 : Nat) : ℚ) ≤ 2 ^ 21 + 4 := by
    exact_mod_cast Nat.add_le_add_right hlength 4
  have hunit := unitsPerOne_pos_rat
  have hkeep : (1 - (2 ^ 21 + 4) / 2 ^ 53) * (100 * unitsPerOne : ℚ) ≤
      kept ^ (shares.length + 4) * (100 * unitsPerOne) := by
    refine mul_le_mul_of_nonneg_right (le_trans ?_ hkept) (by positivity)
    linarith
  linarith

end Reach

/-! ## Shares without weight -/

/-- **The end of the last stretch.** -/
def lastEnd (shares : List Share) : Binary64 := reach (weightSum shares) .zero shares

/-- The word of the point for a text. -/
def textWord (text : String) : Nat := pointWord (magnitude (Murmur.hash 0 text.toUTF8.toList))

theorem bucket_eq (text : String) : bucket text = ofWord (textWord text) := bucketOfHash_eq _

theorem textWord_le (text : String) : textWord text ≤ infinityBits := pointWord_le _

/-- The magnitudes from the greatest signed hash on have the top point. -/
theorem bucket_eq_hundred {text : String}
    (h : 2 ^ 31 - 1 ≤ magnitude (Murmur.hash 0 text.toUTF8.toList)) : bucket text = hundred := by
  rw [bucket_eq, hundred_eq]
  exact congrArg ofWord (le_antisymm (Nat.min_le_right _ _)
    (hundredWord_le_pointWord.trans (pointWord_mono h)))

section Served

variable {args args' : List Json} {data data' : Json} {key key' name : String}

theorem Splits.fits (h : Splits args data key shares) (hpos : 0 < weightSum shares)
    (hsum : weightSum shares < 2 ^ 64) : Fits (weightSum shares) shares where
  total_pos := hpos
  total_le := hsum.le
  weight_le s hs := (h.weight_lt s hs).le

/-- **What a split serves**, by its walk. -/
theorem Splits.evaluate_eq_iff (h : Splits args data key shares) :
    evaluate args data = .ok (.str name) ↔ (0 < weightSum shares ∧ weightSum shares < 2 ^ 64) ∧
      (walk (bucket (flagKey data ++ key)) (weightSum shares) .zero shares <|>
        shares.getLast?.map (·.variant)) = some name := by
  by_cases hsum : weightSum shares < 2 ^ 64
  · rw [evaluate_of_fits h hsum, pick, and_iff_left hsum, Nat.pos_iff_ne_zero]
    by_cases hzero : weightSum shares = 0
    · rw [if_pos hzero]
      refine iff_of_false (fun hserved => ?_) fun hserved => hserved.1 hzero
      cases hserved
    · rw [if_neg hzero, and_iff_right hzero]
      cases (walk (bucket (flagKey data ++ key)) (weightSum shares) .zero shares <|>
        shares.getLast?.map (·.variant)) <;> simp
  · rw [evaluate_of_overflow h (Nat.not_lt.mp hsum)]
    refine iff_of_false (fun hserved => ?_) fun hserved => hsum hserved.1.2
    cases hserved

/-- **When a share without weight is served.** -/
structure ServesPositive (args : List Json) (data : Json) (key : String) (shares : List Share) :
    Prop where
  /-- Never below the end of the last stretch, and never if the last share has a weight: … -/
  positive : ((bucket (flagKey data ++ key)).lt (lastEnd shares) = true ∨
      ∀ s ∈ shares.getLast?, 0 < s.weight) →
    ∀ name, evaluate args data = .ok (.str name) → ∃ s ∈ shares, 0 < s.weight ∧ s.variant = name
  /-- … but beyond that end the last share is served, whatever its weight is. -/
  beyond : (bucket (flagKey data ++ key)).lt (lastEnd shares) = false →
    0 < weightSum shares → weightSum shares < 2 ^ 64 →
      ∀ s ∈ shares.getLast?, evaluate args data = .ok (.str s.variant)
  /-- Only the top point lies beyond it, unless there are very many shares or the sum does not fit. -/
  below : bucket (flagKey data ++ key) ≠ hundred → shares.length ≤ 2 ^ 21 →
    0 < weightSum shares → weightSum shares < 2 ^ 64 →
    (bucket (flagKey data ++ key)).lt (lastEnd shares) = true

/-- A walk through the shares with weight, or the last share. -/
theorem Fits.lastEnd_eq (h : Fits (weightSum shares) shares) :
    lastEnd shares = ofWord (reachWord (weightSum shares) 0 shares) :=
  h.reach_eq (Nat.zero_le _)

theorem Fits.lt_lastEnd_iff (h : Fits (weightSum shares) shares) (text : String) :
    (bucket text).lt (lastEnd shares) = true ↔
      textWord text < reachWord (weightSum shares) 0 shares := by
  rw [h.lastEnd_eq, bucket_eq]
  exact lt_ofWord (textWord_le text) (reachWord_le _ _ (Nat.zero_le _))

/-- Beyond the last end a walk finds nothing. -/
theorem Fits.walk_eq_none (h : Fits (weightSum shares) shares) (text : String) :
    walk (bucket text) (weightSum shares) .zero shares = none ↔
      (bucket text).lt (lastEnd shares) = false := by
  rw [← Bool.not_eq_true, h.lt_lastEnd_iff, not_lt, bucket_eq]
  exact h.walk_eq_none_iff (textWord_le text) (Nat.zero_le _)

/-- A walk finds a share with weight. -/
theorem Fits.positive_of_walk (h : Fits (weightSum shares) shares) {text : String}
    (hwalk : walk (bucket text) (weightSum shares) .zero shares = some name) :
    ∃ s ∈ shares, 0 < s.weight ∧ s.variant = name := by
  have hfilter := h.walk_filter (textWord_le text) (Nat.zero_le _)
  rw [← bucket_eq] at hfilter
  obtain ⟨s, hs, hname⟩ := mem_of_walk (hfilter.symm.trans hwalk)
  obtain ⟨hs, hpos⟩ := List.mem_filter.mp hs
  exact ⟨s, hs, of_decide_eq_true hpos, hname⟩

/-- **The law of shares without weight.** -/
theorem servesPositive (h : Splits args data key shares) : ServesPositive args data key shares where
  positive hserved name hname := by
    obtain ⟨⟨hpos, hsum⟩, hpick⟩ := h.evaluate_eq_iff.mp hname
    have hfits := h.fits hpos hsum
    cases hwalk : walk (bucket (flagKey data ++ key)) (weightSum shares) .zero shares with
    | some found =>
      rw [hwalk] at hpick
      obtain rfl := Option.some.inj hpick
      exact hfits.positive_of_walk hwalk
    | none =>
      rw [hwalk] at hpick
      obtain ⟨s, hs, rfl⟩ := Option.map_eq_some_iff.mp hpick
      rcases hserved with hlt | hlast
      · exact absurd (((hfits.walk_eq_none _).mp hwalk).symm.trans hlt) Bool.false_ne_true
      · exact ⟨s, List.mem_of_getLast? hs, hlast s hs, rfl⟩
  beyond hbeyond hpos hsum s hs := by
    refine h.evaluate_eq_iff.mpr ⟨⟨hpos, hsum⟩, ?_⟩
    rw [((h.fits hpos hsum).walk_eq_none _).mpr hbeyond, Option.mem_def.mp hs]
    rfl
  below htop hlength hpos hsum := by
    rw [(h.fits hpos hsum).lt_lastEnd_iff]
    refine (h.fits hpos hsum).pointWord_lt_reachWord rfl hlength ?_
    exact not_le.mp fun hle => htop (bucket_eq_hundred hle)

/-- A key whose hash is the least of all has the top point; the share without weight behind is served
to it. -/
theorem servesPositive_top :
    Splits [.str "aivlts3m", .arr [.str "a", .int 1], .arr [.str "z", .int 0]] .null "aivlts3m"
        [⟨"a", 1⟩, ⟨"z", 0⟩] ∧
      evaluate [.str "aivlts3m", .arr [.str "a", .int 1], .arr [.str "z", .int 0]] .null =
        .ok (.str "z") := by
  have h : Splits [.str "aivlts3m", .arr [.str "a", .int 1], .arr [.str "z", .int 0]] .null "aivlts3m"
      [⟨"a", 1⟩, ⟨"z", 0⟩] :=
    ⟨⟨_, .text _ _, .cons (.weight "a" 1 (by decide) [])
      (.cons (.weight "z" 0 (by decide) []) .nil)⟩, by simp⟩
  exact ⟨h, (servesPositive h).beyond (by decide +kernel) (by decide) (by decide) ⟨"z", 0⟩ rfl⟩

/-! ## A share that grows -/

theorem nextWord_mono {weight' : Nat} (h : weight ≤ weight') (htotal : 0 < total) :
    nextWord total m weight ≤ nextWord total m weight' :=
  bitsOfUnits_mono Nat.one_pos Nat.one_pos (Nat.mul_le_mul_right _ (Nat.add_le_add_left
    (units_mono (widthWord_mono h htotal)) _))

/-- The first share is served exactly below the end of its stretch, if no other has its name. -/
theorem Splits.evaluate_first_iff {s : Share} (h : Splits args data key (s :: shares))
    (hne : shares ≠ []) (hnames : s.variant ∉ shares.map Share.variant)
    (hpos : 0 < weightSum (s :: shares)) (hsum : weightSum (s :: shares) < 2 ^ 64) :
    evaluate args data = .ok (.str s.variant) ↔
      textWord (flagKey data ++ key) < nextWord (weightSum (s :: shares)) 0 s.weight := by
  have hadd := (h.fits hpos hsum).add_width (m := 0) (Nat.zero_le _)
  rw [h.evaluate_eq_iff, and_iff_right ⟨hpos, hsum⟩, walk]
  simp only [show Binary64.zero = ofWord 0 from rfl, hadd, bucket_eq]
  have hlt := lt_ofWord (textWord_le (flagKey data ++ key)) (nextWord_le (weightSum (s :: shares)) 0 s.weight)
  split
  · rename_i hfirst
    exact iff_of_true rfl (hlt.mp hfirst)
  · rename_i hfirst
    rw [hlt] at hfirst
    refine iff_of_false (fun hserved => hnames ?_) hfirst
    -- any other share that is served has the same name
    cases hwalk : walk (ofWord (textWord (flagKey data ++ key))) (weightSum (s :: shares))
        (ofWord (nextWord (weightSum (s :: shares)) 0 s.weight)) shares with
    | some found =>
      rw [hwalk] at hserved
      obtain rfl := Option.some.inj hserved
      obtain ⟨t, ht, hname⟩ := mem_of_walk hwalk
      exact List.mem_map.mpr ⟨t, ht, hname⟩
    | none =>
      rw [hwalk, List.getLast?_cons_of_ne_nil hne] at hserved
      obtain ⟨t, ht, hname⟩ := Option.map_eq_some_iff.mp hserved
      exact List.mem_map.mpr ⟨t, List.mem_of_getLast? ht, hname⟩

/-- **A user who is served the first share keeps it while it grows**, at the cost of the others. -/
theorem evaluate_sticky {s s' : Share} {rest rest' : List Share} (h : Splits args data key (s :: rest))
    (h' : Splits args' data' key' (s' :: rest')) (htext : flagKey data ++ key = flagKey data' ++ key')
    (hfirst : s.variant = s'.variant)
    (hnames : (rest.map Share.variant).Perm (rest'.map Share.variant))
    (hnodup : ((s :: rest).map Share.variant).Nodup) (hlength : 2 ≤ (s :: rest).length)
    (hsum : weightSum (s :: rest) = weightSum (s' :: rest'))
    (hweight : s.weight ≤ s'.weight) (hserved : evaluate args data = .ok (.str s.variant)) :
    evaluate args' data' = .ok (.str s.variant) := by
  have hout := (List.nodup_cons.mp hnodup).1
  have hout' : s'.variant ∉ rest'.map Share.variant := fun hmem =>
    hout (hfirst ▸ hnames.mem_iff.mpr hmem)
  have hne : rest ≠ [] := by
    rintro rfl
    simp at hlength
  have hne' : rest' ≠ [] := by
    rintro rfl
    exact hne (List.map_eq_nil_iff.mp hnames.eq_nil)
  obtain ⟨hpos, hfits⟩ := (h.evaluate_eq_iff.mp hserved).1
  rw [h.evaluate_first_iff hne hout hpos hfits] at hserved
  rw [hfirst, h'.evaluate_first_iff hne' hout' (hsum ▸ hpos) (hsum ▸ hfits), ← htext, ← hsum]
  exact lt_of_lt_of_le hserved (nextWord_mono hweight hpos)

/-- The user is one of a tenth, and stays when that becomes a half. -/
theorem evaluate_sticky_tenth :
    evaluate [.str "u4", .arr [.str "a", .int 1], .arr [.str "b", .int 9]] .null = .ok (.str "a") ∧
      evaluate [.str "u4", .arr [.str "a", .int 5], .arr [.str "b", .int 5]] .null = .ok (.str "a") := by
  have hsplits {v w : Nat} (hv : v < 2 ^ 64) (hw : w < 2 ^ 64) :
      Splits [.str "u4", .arr [.str "a", .int v], .arr [.str "b", .int w]] .null "u4"
        [⟨"a", v⟩, ⟨"b", w⟩] :=
    ⟨⟨_, .text _ _, .cons (.weight "a" v hv []) (.cons (.weight "b" w hw []) .nil)⟩, by simp⟩
  have h : Splits [.str "u4", .arr [.str "a", .int 1], .arr [.str "b", .int 9]] .null "u4"
      [⟨"a", 1⟩, ⟨"b", 9⟩] := hsplits (v := 1) (w := 9) (by decide) (by decide)
  have hserved : evaluate [.str "u4", .arr [.str "a", .int 1], .arr [.str "b", .int 9]] .null =
      .ok (.str "a") := by
    have hpick : pick (bucket (flagKey .null ++ "u4")) (weightSum [⟨"a", 1⟩, ⟨"b", 9⟩])
        [⟨"a", 1⟩, ⟨"b", 9⟩] = some "a" := by decide +kernel
    rw [evaluate_of_fits h (by decide), hpick]
    rfl
  exact ⟨hserved, evaluate_sticky h (hsplits (v := 5) (w := 5) (by decide) (by decide)) rfl rfl (.refl _)
    (by decide) (by decide) (by decide) (by decide) hserved⟩

end Served

end FeatureFlags.Fractional
