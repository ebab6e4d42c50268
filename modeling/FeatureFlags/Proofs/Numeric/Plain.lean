import FeatureFlags.Numeric.Reading
import FeatureFlags.Proofs.Json.Numerals
import FeatureFlags.Proofs.Numeric.Equality
import FeatureFlags.Proofs.Numeric.Monotone

/-!
# Proofs/Numeric/Plain — plain text is read back as the double

A text of digits, with a sign or without, is read as the double nearest to what it writes
(`ofText?_signed`).  The plain text of a finite double writes a decimal that is nearest to it, and the
numeral of a whole double writes the double itself, so either is read back as the double
(`ofText?_plainText`, `ofText?_wholeText`).
-/

namespace FeatureFlags.Binary64

open Numeral

variable {negative : Bool} {whole decimals cs : List Char} {x : Binary64} {d : Decimal}

attribute [local irreducible] unitsPerOne

/-! ## Digits -/

theorem ofDigitsText?_whole (h : Digits whole) :
    ofDigitsText? negative whole = some (ofDecimal negative (value whole) 0) := by
  have hspan := @Digits.span_append whole [] h (by simp)
  rw [List.append_nil] at hspan
  simp [ofDigitsText?, hspan, h.ne_nil, exponentOfText?]

theorem ofDigitsText?_point (hwhole : Digits whole) (hdecimals : Digits decimals) :
    ofDigitsText? negative (whole ++ '.' :: decimals) =
      some (ofDecimal negative (value (whole ++ decimals)) (-decimals.length)) := by
  have hspan := @Digits.span_append whole ('.' :: decimals) hwhole (by simp)
  have hspan' := @Digits.span_append decimals [] hdecimals (by simp)
  rw [List.append_nil] at hspan'
  simp [ofDigitsText?, hspan, hspan', hwhole.ne_nil, exponentOfText?]

theorem toLower_of_isDigit {c : Char} (h : c.isDigit = true) : c.toLower = c := by
  obtain ⟨-, hle⟩ := Char.isDigit_iff_toNat.mp h
  have hupper : ¬ (c.val ≥ 'A'.val ∧ c.val ≤ 'Z'.val) := by
    rintro ⟨hge, -⟩
    have hge' : 65 ≤ c.toNat := UInt32.le_iff_toNat_le.mp hge
    have hle' : c.toNat ≤ 57 := hle
    omega
  exact dif_neg hupper

/-- **A text that begins with a digit is read after its sign.** -/
theorem ofText?_signed {c : Char} (hdigit : c.isDigit = true) :
    ofText? (String.ofList (Number.sign negative ++ c :: cs)) = ofDigitsText? negative (c :: cs) := by
  have hne (d : Char) (hd : d.isDigit = false) : c ≠ d := fun h => by
    rw [h, hd] at hdigit
    cases hdigit
  have hname (name : String) (hletter : ∃ d ∈ name.toList.head?, d.isDigit = false) :
      String.ofList (lowered (c :: cs)) ≠ name := by
    rintro rfl
    obtain ⟨d, hhead, hd⟩ := hletter
    rw [String.toList_ofList, lowered, List.map_cons, toLower_of_isDigit hdigit] at hhead
    exact hne d hd (Option.some.inj hhead)
  have hinf := hname "inf" ⟨'i', rfl, rfl⟩
  have hinfinity := hname "infinity" ⟨'i', rfl, rfl⟩
  have hnan := hname "nan" ⟨'n', rfl, rfl⟩
  rw [ofText?, String.toList_ofList]
  cases negative with
  | true => simp [Number.sign, hinf, hinfinity, hnan]
  | false => simp [Number.sign, hinf, hinfinity, hnan, hne '-' rfl, hne '+' rfl]

theorem ofText?_digits (h : Digits whole) (rest : List Char) :
    ofText? (String.ofList (Number.sign negative ++ (whole ++ rest))) =
      ofDigitsText? negative (whole ++ rest) := by
  obtain ⟨c, cs, rfl⟩ := List.exists_cons_of_ne_nil h.ne_nil
  exact ofText?_signed (h.isDigit c List.mem_cons_self)

/-! ## Whole numbers -/

theorem ofDecimal_whole (negative : Bool) (n : Nat) : ofDecimal negative n 0 = ofRatio negative n 1 := by
  rw [ofDecimal]
  split
  · subst n
    rw [ofRatio, Nat.zero_mul, bitsOfUnits_zero]
  · rw [if_neg (by decide), if_neg (by omega), if_pos le_rfl, Int.toNat_zero, Nat.pow_eq, Nat.pow_zero,
      Nat.mul_one]

/-- **A numeral is read as the double nearest to it.** -/
theorem ofText?_numeral (negative : Bool) (n : Nat) :
    ofText? (String.ofList (Number.sign negative ++ Nat.toDigits 10 n)) =
      some (ofRatio negative n 1) := by
  rw [← List.append_nil (Nat.toDigits 10 n), ofText?_digits (digits_toDigits n), List.append_nil,
    ofDigitsText?_whole (digits_toDigits n), value_toDigits, ofDecimal_whole]

theorem ofText?_toString (i : Int) : ofText? (toString i) = some (ofInt i) := by
  rw [← String.ofList_toList (s := toString i), Number.toList_toString, ofText?_numeral]
  rfl

theorem toList_wholeText (x : Binary64) :
    x.wholeText.toList = Number.sign x.isNegative ++ Nat.toDigits 10 (x.units / unitsPerOne) := by
  rw [wholeText, String.toList_append, ← Nat.toList_repr]
  cases x.isNegative <;> rfl

/-- **The numeral of a whole double is read back as the double.** -/
theorem ofText?_wholeText (h : x.isWhole = true) : ofText? x.wholeText = some x := by
  simp only [isWhole, isFinite, Bool.and_eq_true, decide_eq_true_eq, beq_iff_eq] at h
  obtain ⟨hfin, hwhole⟩ := h
  have hexact : x.units / unitsPerOne * unitsPerOne = unitsOfBits x.magnitudeBits :=
    Nat.div_mul_cancel (Nat.dvd_of_mod_eq_zero hwhole)
  rw [← String.ofList_toList (s := x.wholeText), toList_wholeText, ofText?_numeral, ofRatio, hexact,
    bitsOfUnits_units hfin.le, Number.ofSignMagnitude_self]

/-! ## Plain text -/

/-- **The layout of a finite double.** -/
theorem plainText_eq (hfin : x.isFinite = true) :
    x.plainText = String.ofList (Number.sign x.isNegative ++ (x.shortest .up).positional false) := by
  have hinf : x.isInfinite = false := by
    simp only [isFinite, isInfinite, decide_eq_true_eq, beq_eq_false_iff_ne] at *
    omega
  simp only [plainText, text, isNaN_of_isFinite hfin, hinf, Bool.false_eq_true, if_false, Number.sign]
  rfl

/-- **A nearest decimal is read as the double.** -/
theorem ofText?_positional (hfin : x.isFinite = true) (hpos : 0 < x.magnitudeBits)
    (h : NearestDecimal x.magnitudeBits d.digits d.power) :
    ofText? (String.ofList (Number.sign x.isNegative ++ d.positional false)) = some x := by
  have hlt : x.magnitudeBits < infinityBits := by simpa [isFinite] using hfin
  have hnearest {digits : Nat} {power : Int} (h : NearestDecimal x.magnitudeBits digits power) :
      some (ofDecimal x.isNegative digits power) = some x := by
    rw [ofDecimal_of_nearest hpos hlt h, Number.ofSignMagnitude_self]
  rcases lt_or_ge d.power 0 with hpower | hpower
  · obtain ⟨whole, decimals, htext, hwhole, hdecimals, hvalue, hplaces⟩ :=
      Number.positional_of_neg (h.digits_pos hpos) hpower false
    rw [htext, ofText?_digits hwhole.toDigits, ofDigitsText?_point hwhole.toDigits hdecimals, hvalue,
      hplaces]
    exact hnearest h
  · obtain ⟨whole, htext, hwhole, hvalue⟩ :=
      Number.positional_of_nonneg (h.digits_pos hpos) hpower false
    rw [htext, ofText?_digits hwhole.toDigits, if_neg Bool.false_ne_true, List.append_nil,
      ofDigitsText?_whole hwhole.toDigits, hvalue]
    refine hnearest ?_
    rw [← nearestDecimal_append_zeros d.power.toNat] at h
    convert h using 1
    omega

/-- **Plain text is read back as the double.** -/
theorem ofText?_plainText (hfin : x.isFinite = true) : ofText? x.plainText = some x := by
  rw [plainText_eq hfin]
  rcases Nat.eq_zero_or_pos x.magnitudeBits with hzero | hpos
  · have hshortest : x.shortest .up = ⟨0, 0⟩ := by simp [shortest, isZero, hzero]
    have hself := Number.ofSignMagnitude_self x
    have htext : Decimal.positional ⟨0, 0⟩ false = Nat.toDigits 10 0 := rfl
    rw [hzero] at hself
    rw [hshortest, htext, ofText?_numeral, ofRatio, Nat.zero_mul, bitsOfUnits_zero, hself]
  · exact ofText?_positional hfin hpos (nearestDecimal_shortest .up hpos)

end FeatureFlags.Binary64
