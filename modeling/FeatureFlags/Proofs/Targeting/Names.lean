import FeatureFlags.Proofs.Numeric.Plain
import FeatureFlags.Proofs.Numeric.Value
import FeatureFlags.Targeting.Outcome

/-!
# Proofs/Targeting/Names — which numbers name one variant

The name of a number is read back as the double nearest to it (`Number.ofText?_nameText`).  So numbers of
one name have one value, but for two things: an integer beyond the signed 64-bit ones is named as the
double nearest to it, and the negative zero has a sign (`Outcome.ofResult_number`).
-/

namespace FeatureFlags

namespace Number

open Binary64 Numeral

variable {n x y : Number} {d : Binary64} {i : ℤ}

attribute [local irreducible] unitsPerOne

/-! ## What is named -/

/-- **The number that a number is named as**: an integer beyond the signed 64-bit ones is named as the
double nearest to it. -/
def named (n : Number) : Number :=
  match n.int64? with
  | some i => int i
  | none => double n.toDouble

/-- The number is the negative zero. -/
def isNegativeZero : Number → Bool
  | int _ => false
  | double d => d.isZero && d.isNegative

/-- **A number that is named as it is**: a signed 64-bit integer or a finite double. -/
inductive IsNamed : Number → Prop
  | int {i : ℤ} (h : isInt64 i = true) : IsNamed (int i)
  | double {d : Binary64} (h : d.isFinite = true) : IsNamed (double d)

theorem nameText_int (h : isInt64 i = true) : (int i).nameText = toString i := by
  rw [nameText, int64?, if_pos h]

theorem nameText_double (d : Binary64) : (double d).nameText =
    if d.isWhole && d.units < Nat.pow 10 21 * unitsPerOne then d.wholeText else d.plainText := rfl

theorem named_int (h : isInt64 i = true) : (int i).named = int i := by
  rw [named, int64?, if_pos h]

theorem named_of_not_isInt64 (h : ¬ isInt64 i = true) : (int i).named = double (ofInt i) := by
  rw [named, int64?, if_neg h]
  rfl

theorem nameText_named (n : Number) : n.named.nameText = n.nameText := by
  cases n with
  | double d => rfl
  | int i =>
    by_cases h : isInt64 i = true
    · rw [named_int h]
    · rw [named_of_not_isInt64 h, nameText_double, nameText, int64?, if_neg h]
      rfl

theorem isNamed_named (h : n.Readable) : n.named.IsNamed := by
  cases n with
  | double d => exact .double h
  | int i =>
    by_cases hfits : isInt64 i = true
    · rw [named_int hfits]
      exact .int hfits
    · rw [named_of_not_isInt64 hfits]
      exact .double (exists_value_of_not_isInt64 h hfits).2.1

/-- An integer that is named as a double is far from zero. -/
theorem isNegativeZero_named (h : n.Readable) : n.named.isNegativeZero = n.isNegativeZero := by
  cases n with
  | double d => rfl
  | int i =>
    by_cases hfits : isInt64 i = true
    · rw [named_int hfits]
    · obtain ⟨-, -, j, hj, hbeyond⟩ := exists_value_of_not_isInt64 h hfits
      have hne : j ≠ 0 := (lt_trans (by decide) hbeyond).ne'
      rw [named_of_not_isInt64 hfits, isNegativeZero, isNegativeZero, isZero_of_value hj,
        decide_eq_false hne, Bool.false_and]

/-! ## Whole numbers -/

/-- The digits of a numeral do not begin with a sign. -/
theorem sign_append_toDigits_inj {negative negative' : Bool} {m m' : Nat}
    (h : sign negative ++ Nat.toDigits 10 m = sign negative' ++ Nat.toDigits 10 m') :
    negative = negative' ∧ m = m' := by
  have hne (k : Nat) (cs : List Char) : Nat.toDigits 10 k ≠ '-' :: cs := fun h =>
    absurd ((digits_toDigits k).isDigit '-' (h ▸ List.mem_cons_self)) (by decide)
  have hvalue {k k' : Nat} (h : Nat.toDigits 10 k = Nat.toDigits 10 k') : k = k' := by
    rw [← value_toDigits k, h, value_toDigits]
  cases negative <;> cases negative' <;> simp only [sign, Bool.false_eq_true, if_true, if_false,
    List.nil_append, List.cons_append, List.cons.injEq, true_and] at h
  · exact ⟨rfl, hvalue h⟩
  · exact absurd h (hne _ _)
  · exact absurd h.symm (hne _ _)
  · exact ⟨rfl, hvalue h⟩

/-- **A whole double below `10 ^ 21`** is named by its numeral. -/
theorem toList_nameText_whole (hfin : d.isFinite = true) (hvalue : d.value = i)
    (hlt : i.natAbs < 10 ^ 21) :
    (double d).nameText.toList = sign d.isNegative ++ Nat.toDigits 10 i.natAbs := by
  have hunits := units_of_value hvalue
  have hwhole : d.isWhole = true := (isWhole_iff hfin).mpr ⟨i, hvalue⟩
  have hsmall : d.units < Nat.pow 10 21 * unitsPerOne := by
    rw [hunits]
    exact Nat.mul_lt_mul_of_pos_right hlt unitsPerOne_pos
  rw [nameText_double, hwhole, decide_eq_true hsmall, Bool.and_true, if_pos rfl, toList_wholeText,
    hunits, Nat.mul_div_cancel _ unitsPerOne_pos]

/-- **An integral number below `10 ^ 21`** is named by its numeral, the negative zero with its sign. -/
theorem nameText_integral (h : n.IsNamed) (hvalue : n.value = i) (hlt : i.natAbs < 10 ^ 21) :
    n.nameText = (if n.isNegativeZero then "-" else "") ++ toString i := by
  cases h with
  | int h =>
    obtain rfl : _ = i := Int.cast_injective hvalue
    rw [nameText_int h]
    exact (String.empty_append ..).symm
  | @double d hfin =>
    refine String.toList_inj.mp ?_
    rw [toList_nameText_whole hfin hvalue hlt, String.toList_append, toList_toString, isNegativeZero,
      isZero_of_value hvalue]
    by_cases hzero : i = 0
    · subst hzero
      rw [decide_eq_true rfl, Bool.true_and]
      cases d.isNegative <;> rfl
    · rw [isNegative_of_value hvalue hzero, decide_eq_false hzero, Bool.false_and]
      rfl

/-! ## Names -/

/-- **The name of a number is read back** as the double nearest to it. -/
theorem ofText?_nameText (h : n.IsNamed) : ofText? n.nameText = some n.toDouble := by
  cases h with
  | int h => rw [nameText_int h, ofText?_toString, toDouble]
  | @double d hfin =>
    rw [nameText_double, toDouble]
    split
    · rename_i hwhole
      exact ofText?_wholeText (Bool.and_elim_left hwhole)
    · exact ofText?_plainText hfin

theorem nameText_int_inj (hi : isInt64 i = true) {j : ℤ} (hj : isInt64 j = true) :
    (int i).nameText = (int j).nameText ↔ i = j := by
  refine ⟨fun h => ?_, fun h => h ▸ rfl⟩
  rw [nameText_int hi, nameText_int hj, ← String.toList_inj, toList_toString, toList_toString] at h
  obtain ⟨hsign, habs⟩ := sign_append_toDigits_inj h
  rw [decide_eq_decide] at hsign
  omega

/-- **An integer and a double** of one name are equal, and the double is not the negative zero. -/
theorem nameText_int_eq_double_iff (hi : isInt64 i = true) (hd : d.isFinite = true) :
    (int i).nameText = (double d).nameText ↔ d.value = i ∧ (double d).isNegativeZero = false := by
  have hrange := isInt64_iff.mp hi
  simp only [leastInt64, greatestInt64] at hrange
  constructor
  · intro h
    have hread := (ofText?_nameText (.int hi)).symm.trans (h ▸ ofText?_nameText (.double hd))
    obtain rfl : ofInt i = d := Option.some.inj hread
    obtain ⟨hfin, j, hvalue, hsmall, -⟩ := exists_value_ofInt (i := i) (by omega)
    rw [nameText_int hi, ← String.toList_inj, toList_toString,
      toList_nameText_whole hfin hvalue (by omega)] at h
    obtain ⟨hsign, habs⟩ := sign_append_toDigits_inj h
    rw [isNegativeZero, isZero_of_value hvalue, ← hsign]
    by_cases hzero : j = 0
    · obtain rfl : i = 0 := by omega
      exact ⟨hvalue.trans (congrArg _ hzero), Bool.and_false _⟩
    · rw [isNegative_of_value hvalue hzero, decide_eq_decide] at hsign
      obtain rfl : i = j := by omega
      exact ⟨hvalue, by rw [decide_eq_false hzero, Bool.false_and]⟩
  · rintro ⟨hvalue, hzero⟩
    rw [nameText_integral (.double hd) hvalue (by omega), nameText_int hi, hzero]
    exact (String.empty_append ..).symm

/-- Doubles of one name are the same, since each is read back from it. -/
theorem nameText_double_inj {d e : Binary64} (hd : d.isFinite = true) (he : e.isFinite = true) :
    (double d).nameText = (double e).nameText ↔
      (double d).value = (double e).value ∧ (double d).isNegativeZero = (double e).isNegativeZero := by
  constructor
  · intro h
    have hread := (ofText?_nameText (.double hd)).symm.trans (h ▸ ofText?_nameText (.double he))
    obtain rfl : d = e := Option.some.inj hread
    exact ⟨rfl, rfl⟩
  · rintro ⟨hvalue, hzero⟩
    have heq : d.eq e = true :=
      eq_iff.mpr ⟨isNaN_of_isFinite hd, isNaN_of_isFinite he, value_eq_iff.mp hvalue⟩
    rw [isNegativeZero, isNegativeZero, isZero_of_eq heq] at hzero
    have hsame : d = e := same_of_eq heq fun h => by
      rwa [← isZero_of_eq heq, h, Bool.true_and, Bool.true_and] at hzero
    rw [hsame]

/-- **Numbers have one name** if they have one value and are negative zeros both or neither. -/
theorem nameText_eq_iff (hx : x.IsNamed) (hy : y.IsNamed) :
    x.nameText = y.nameText ↔ x.value = y.value ∧ x.isNegativeZero = y.isNegativeZero := by
  cases hx with
  | @int i hi =>
    cases hy with
    | @int j hj =>
      rw [nameText_int_inj hi hj]
      exact ⟨fun h => h ▸ ⟨rfl, rfl⟩, fun h => Int.cast_injective h.1⟩
    | @double d hd =>
      rw [nameText_int_eq_double_iff hi hd]
      exact and_congr eq_comm eq_comm
  | @double d hd =>
    cases hy with
    | int hj => exact eq_comm.trans (nameText_int_eq_double_iff hj hd)
    | double he => exact nameText_double_inj hd he

end Number

/-! ## Variants -/

namespace Outcome

variable {x y : Number}

/-- **Numbers name variants by value.**  Two numbers name one variant exactly if the numbers that they are
named as have one value and neither or both are negative zeros; if that value is an integer below
`10 ^ 21`, the variant is its numeral, with a sign for the negative zero.  So numbers that are named at
their own values, and are not negative zeros, name one variant exactly if they are equal. -/
theorem ofResult_number (hx : x.Readable) (hy : y.Readable) :
    (ofResult (some (.num x)) = ofResult (some (.num y)) ↔
        x.named.value = y.named.value ∧ x.isNegativeZero = y.isNegativeZero) ∧
      (∀ i : ℤ, x.named.value = i → i.natAbs < 10 ^ 21 →
        ofResult (some (.num x)) = variant ((if x.isNegativeZero then "-" else "") ++ toString i)) ∧
      (x.named.value = x.value → y.named.value = y.value →
        x.isNegativeZero = false → y.isNegativeZero = false →
        (ofResult (some (.num x)) = ofResult (some (.num y)) ↔ x.value = y.value)) := by
  have hnames : ofResult (some (.num x)) = ofResult (some (.num y)) ↔
      x.named.value = y.named.value ∧ x.isNegativeZero = y.isNegativeZero := by
    rw [ofResult, ofResult, variant.injEq, ← Number.nameText_named x, ← Number.nameText_named y,
      Number.nameText_eq_iff (Number.isNamed_named hx) (Number.isNamed_named hy),
      Number.isNegativeZero_named hx, Number.isNegativeZero_named hy]
  refine ⟨hnames, fun i hvalue hlt => ?_, fun hx' hy' hzero hzero' => ?_⟩
  · rw [ofResult, ← Number.nameText_named,
      Number.nameText_integral (Number.isNamed_named hx) hvalue hlt, Number.isNegativeZero_named hx]
  · rw [hnames, hx', hy', hzero, hzero']
    exact and_iff_left rfl

/-- The zeros are equal, and name two variants. -/
theorem ofResult_number_zeros :
    (Number.double .zero).Readable ∧ (Number.double (.ofSignMagnitude true 0)).Readable ∧
      (Number.double .zero).value = (Number.double (.ofSignMagnitude true 0)).value ∧
      ofResult (some (.num (.double .zero))) ≠
        ofResult (some (.num (.double (.ofSignMagnitude true 0)))) := by
  have hzero : (Number.double .zero).Readable := rfl
  have hnegative : (Number.double (.ofSignMagnitude true 0)).Readable := rfl
  refine ⟨hzero, hnegative, Binary64.value_eq_iff.mpr (by decide), fun h => ?_⟩
  exact absurd ((ofResult_number hzero hnegative).1.mp h).2 (by decide)

/-- The greatest unsigned integer is named as the double nearest to it. -/
example : ofResult (some (.int 18446744073709551615)) = variant "18446744073709551616" := by
  decide +kernel

end Outcome

end FeatureFlags
