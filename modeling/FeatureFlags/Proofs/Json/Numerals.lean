import FeatureFlags.Json.Token
import FeatureFlags.Proofs.Numeric.Shortest
import FeatureFlags.Proofs.Text.Cuts

/-!
# Proofs/Json/Numerals — the text of a number is read back as the number

A lexeme has a sign, whole digits, and either a fraction, an exponent, both or neither; for each shape
one lemma says which number it writes.  The text of a number has one of these shapes, and what it
writes is nearest to the number (`Number.ofLexeme?_text`).  Every number that is read is one of those,
a 64-bit integer or a finite double (`Number.readable_of_ofLexeme?`).
-/

namespace FeatureFlags

/-! ## Digits -/

namespace Numeral

theorem value_eq_ofDigitChars (cs : List Char) : value cs = Nat.ofDigitChars 10 cs 0 := by
  rw [Nat.ofDigitChars_eq_foldl]
  rfl

@[simp] theorem value_toDigits (n : Nat) : value (Nat.toDigits 10 n) = n := by
  rw [value_eq_ofDigitChars, Nat.ofDigitChars_ten_toDigits]

theorem value_append (cs ds : List Char) :
    value (cs ++ ds) = 10 ^ ds.length * value cs + value ds := by
  rw [value_eq_ofDigitChars, Nat.ofDigitChars_append, Nat.ofDigitChars_eq_ofDigitChars_zero,
    value_eq_ofDigitChars, value_eq_ofDigitChars]

theorem value_zeros (count : Nat) : value (List.replicate count '0') = 0 := by
  rw [value_eq_ofDigitChars, Nat.ofDigitChars_replicate_zero, Nat.mul_zero]

/-- **A row of digits**, at least one. -/
structure Digits (cs : List Char) : Prop where
  ne_nil : cs ≠ []
  isDigit : ∀ c ∈ cs, c.isDigit = true

theorem digits_toDigits (n : Nat) : Digits (Nat.toDigits 10 n) :=
  ⟨Nat.toDigits_ne_nil, fun _ => Nat.isDigit_of_mem_toDigits (by omega) (by omega)⟩

theorem digits?_eq_some_iff {cs : List Char} {n : Nat} :
    digits? cs = some n ↔ Digits cs ∧ value cs = n := by
  rw [digits?]
  split
  · rename_i hbad
    refine ⟨fun h => (by cases h), fun ⟨h, _⟩ => ?_⟩
    have hall : cs.all Char.isDigit = true := List.all_eq_true.mpr h.isDigit
    simp [h.ne_nil, hall] at hbad
  · rename_i hgood
    simp only [Bool.or_eq_true, not_or, Bool.not_eq_true', Bool.not_eq_false,
      List.isEmpty_iff] at hgood
    refine ⟨fun h => ⟨⟨hgood.1, List.all_eq_true.mp hgood.2⟩, Option.some.inj h⟩, ?_⟩
    rintro ⟨-, rfl⟩
    rfl

theorem Digits.digits? {cs : List Char} (h : Digits cs) : Numeral.digits? cs = some (value cs) :=
  digits?_eq_some_iff.mpr ⟨h, rfl⟩

/-- Digits end where something else begins. -/
theorem Digits.span_append {cs rest : List Char} (h : Digits cs)
    (hrest : ∀ c ∈ rest.head?, c.isDigit = false) : span (cs ++ rest) = (cs, rest) := by
  have hcut := FeatureFlags.span_append h.isDigit hrest
  rw [span, hcut.1, hcut.2]

theorem toNat_sub_lt {c : Char} (h : c.isDigit = true) : c.toNat - 48 < 10 := by
  obtain ⟨-, hle⟩ := Char.isDigit_iff_toNat.mp h
  exact Nat.lt_succ_of_le (Nat.sub_le_sub_right hle 48)

theorem value_lt {cs : List Char} (h : ∀ c ∈ cs, c.isDigit = true) : value cs < 10 ^ cs.length := by
  induction cs with
  | nil => exact Nat.one_pos
  | cons c cs ih =>
    have hcs := ih fun d hd => h d (List.mem_cons_of_mem _ hd)
    have hc : value [c] ≤ 9 := by
      have := toNat_sub_lt (h c List.mem_cons_self)
      simp only [value, List.foldl_cons, List.foldl_nil]
      omega
    have hhigh := Nat.mul_le_mul_left (10 ^ cs.length) hc
    rw [← List.singleton_append, value_append, List.singleton_append, List.length_cons, Nat.pow_succ]
    omega

/-- **Digits with no leading zero**, unless it is the only one. -/
structure Whole (cs : List Char) : Prop extends Digits cs where
  noLeadingZero : cs.head? = some '0' → cs.length = 1

/-- The digits of a positive number do not begin with a zero. -/
theorem head?_toDigits {n : Nat} (hpos : 0 < n) : (Nat.toDigits 10 n).head? ≠ some '0' := by
  intro hhead
  obtain ⟨cs, hcs⟩ : ∃ cs, Nat.toDigits 10 n = '0' :: cs := List.head?_eq_some_iff.mp hhead
  have hdigits := (digits_toDigits n).isDigit
  have hlt : n < 10 ^ cs.length := by
    have hvalue : value ('0' :: cs) = value cs := rfl
    rw [← value_toDigits n, hcs, hvalue]
    exact value_lt fun c hc => hdigits c (hcs ▸ List.mem_cons_of_mem _ hc)
  rcases Nat.eq_zero_or_pos cs.length with hlen | hlen
  · rw [hlen] at hlt
    omega
  · have := (Nat.length_toDigits_le_iff (by omega) hlen).mpr hlt
    rw [hcs, List.length_cons] at this
    omega

theorem whole_toDigits (n : Nat) : Whole (Nat.toDigits 10 n) where
  toDigits := digits_toDigits n
  noLeadingZero h := by
    rcases Nat.eq_zero_or_pos n with rfl | hpos
    · rfl
    · exact absurd h (head?_toDigits hpos)

end Numeral

namespace Number

open Numeral

/-! ## The shapes of a lexeme -/

/-- The sign of a lexeme. -/
def sign (negative : Bool) : List Char := if negative then ['-'] else []

/-- What a lexeme writes, by what follows its whole digits. -/
def afterWhole (negative : Bool) (whole rest : List Char) : Option Number :=
  match (match rest with
    | '.' :: rest =>
      let (decimals, rest) := span rest
      if decimals.isEmpty then none else some (some decimals, rest)
    | rest => some (none, rest)) with
  | none => none
  | some (decimals, rest) =>
    match exponent? rest, decimals with
    | none, _ => none
    | some none, none => ofNumeral? negative (value whole)
    | some power, decimals =>
      let decimals := decimals.getD []
      ofDouble? (Binary64.ofDecimal negative (value (whole ++ decimals))
        (power.getD 0 - decimals.length))

section Shapes

variable {negative : Bool} {whole decimals rest : List Char}

/-- **A lexeme begins with its sign and its whole digits.** -/
theorem ofLexeme?_sign (h : Whole whole) (hrest : ∀ c ∈ rest.head?, c.isDigit = false) :
    ofLexeme? (sign negative ++ (whole ++ rest)) = afterWhole negative whole rest := by
  have hzero : (whole.isEmpty || (whole.head? == some '0' && decide (1 < whole.length))) = false := by
    have hempty : whole.isEmpty = false := by simp [h.ne_nil]
    by_cases hhead : whole.head? = some '0'
    · simp [hempty, h.noLeadingZero hhead]
    · simp [hempty, hhead]
  cases negative with
  | true =>
    simp only [sign, ofLexeme?, if_true, List.singleton_append, h.span_append hrest, hzero]
    rfl
  | false =>
    obtain ⟨d, ds, rfl⟩ := List.exists_cons_of_ne_nil h.ne_nil
    have hminus : d ≠ '-' := by
      rintro rfl
      exact absurd (h.isDigit '-' List.mem_cons_self) (by decide)
    have hspan := h.span_append hrest
    rw [List.cons_append] at hspan
    simp only [sign, ofLexeme?, Bool.false_eq_true, if_false, List.nil_append, List.cons_append]
    split
    · rename_i hcons
      exact absurd (List.cons.inj hcons).1 hminus
    · simp only [hspan, hzero]
      rfl

/-- No point and no exponent: a numeral. -/
theorem ofLexeme?_numeral (h : Whole whole) :
    ofLexeme? (sign negative ++ whole) = ofNumeral? negative (value whole) := by
  have := @ofLexeme?_sign negative whole [] h (by simp)
  rwa [List.append_nil] at this

/-- **A point with decimals**, and no exponent. -/
theorem ofLexeme?_point (h : Whole whole) (hdecimals : Digits decimals) :
    ofLexeme? (sign negative ++ (whole ++ '.' :: decimals)) =
      ofDouble? (Binary64.ofDecimal negative (value (whole ++ decimals)) (-decimals.length)) := by
  have hspan := @Digits.span_append decimals [] hdecimals (by simp)
  rw [List.append_nil] at hspan
  rw [ofLexeme?_sign h (by simp)]
  simp [afterWhole, hspan, hdecimals.ne_nil, exponent?]

/-- **An exponent**, with decimals before it or without. -/
theorem ofLexeme?_exponent {power : Int} (h : Whole whole)
    (hdecimals : ∀ c ∈ decimals, c.isDigit = true) (hpower : integer? rest = some power) :
    ofLexeme? (sign negative ++
        (whole ++ ((if decimals = [] then [] else '.' :: decimals) ++ 'e' :: rest))) =
      ofDouble? (Binary64.ofDecimal negative (value (whole ++ decimals))
        (power - decimals.length)) := by
  by_cases hnil : decimals = []
  · subst hnil
    rw [ofLexeme?_sign h (by simp)]
    simp [afterWhole, exponent?, hpower]
  · have hspan := @Digits.span_append decimals ('e' :: rest) ⟨hnil, hdecimals⟩ (by simp)
    rw [ofLexeme?_sign h (by simp [hnil])]
    simp [afterWhole, hspan, hnil, exponent?, hpower]

end Shapes

/-! ## Doubles -/

section Doubles

variable {x : Binary64} {d : Decimal}

/-- A double is its sign and its word without sign. -/
theorem ofSignMagnitude_self (x : Binary64) :
    Binary64.ofSignMagnitude x.isNegative x.magnitudeBits = x := by
  obtain ⟨bits⟩ := x
  have hbits := bits.toNat_lt
  simp only [Binary64.ofSignMagnitude, Binary64.isNegative, Binary64.magnitudeBits, Nat.pow_eq,
    decide_eq_true_eq]
  congr 1
  apply UInt64.toNat_inj.mp
  rw [UInt64.toNat_ofNat']
  split <;> omega

/-- **A nearest decimal is read as the double.** -/
theorem ofDouble?_ofDecimal {digits : Nat} {power : Int} (hfin : x.isFinite = true)
    (hpos : 0 < x.magnitudeBits) (h : Binary64.NearestDecimal x.magnitudeBits digits power) :
    ofDouble? (Binary64.ofDecimal x.isNegative digits power) = some (double x) := by
  have hlt : x.magnitudeBits < Binary64.infinityBits := by simpa [Binary64.isFinite] using hfin
  rw [Binary64.ofDecimal_of_nearest hpos hlt h, ofSignMagnitude_self, ofDouble?, if_pos hfin]

/-- Zeros in front of a number's digits do not change it. -/
theorem value_zeros_append (count n : Nat) :
    value (List.replicate count '0' ++ Nat.toDigits 10 n) = n := by
  rw [value_append, value_zeros, value_toDigits, Nat.mul_zero, Nat.zero_add]

theorem digits_zeros_append (count n : Nat) :
    Digits (List.replicate count '0' ++ Nat.toDigits 10 n) := by
  refine ⟨by simp [Nat.toDigits_ne_nil], fun c hc => ?_⟩
  rcases List.mem_append.mp hc with hc | hc
  · rw [List.eq_of_mem_replicate hc]
    rfl
  · exact (digits_toDigits n).isDigit c hc

/-- A decimal that is a whole number is written with zeros at its end … -/
theorem positional_of_nonneg (hpos : 0 < d.digits) (hpower : 0 ≤ d.power) (keepPoint : Bool) :
    ∃ whole, d.positional keepPoint = whole ++ (if keepPoint then ['.', '0'] else []) ∧ Whole whole ∧
      value whole = d.digits * 10 ^ d.power.toNat := by
  refine ⟨Nat.toDigits 10 d.digits ++ List.replicate d.power.toNat '0', ?_, ⟨⟨?_, fun c hc => ?_⟩,
    fun hzero => ?_⟩, ?_⟩
  · rw [Decimal.positional, if_pos hpower]
  · simp [Nat.toDigits_ne_nil]
  · rcases List.mem_append.mp hc with hc | hc
    · exact (digits_toDigits _).isDigit c hc
    · rw [List.eq_of_mem_replicate hc]
      rfl
  · rw [List.head?_append_of_ne_nil _ Nat.toDigits_ne_nil] at hzero
    exact absurd hzero (head?_toDigits hpos)
  · rw [value_append, value_zeros, value_toDigits, List.length_replicate, Nat.mul_comm, Nat.add_zero]

/-- … and any other with its places behind a point, and enough zeros for one digit before it. -/
theorem positional_of_neg (hpos : 0 < d.digits) (hpower : d.power < 0) (keepPoint : Bool) :
    ∃ whole decimals, d.positional keepPoint = whole ++ '.' :: decimals ∧ Whole whole ∧
      Digits decimals ∧ value (whole ++ decimals) = d.digits ∧ -(decimals.length : Int) = d.power := by
  generalize hplaces : (-d.power).toNat = places
  have hdigits := digits_zeros_append (places + 1 - (Nat.toDigits 10 d.digits).length) d.digits
  have hvalue := value_zeros_append (places + 1 - (Nat.toDigits 10 d.digits).length) d.digits
  generalize hpadded : List.replicate (places + 1 - (Nat.toDigits 10 d.digits).length) '0' ++
    Nat.toDigits 10 d.digits = padded at *
  have hlen : padded.length = max (places + 1) (Nat.toDigits 10 d.digits).length := by
    rw [← hpadded, List.length_append, List.length_replicate]
    omega
  refine ⟨padded.take (padded.length - places), padded.drop (padded.length - places), ?_,
    ⟨⟨?_, fun c hc => hdigits.isDigit c (List.mem_of_mem_take hc)⟩, fun hzero => ?_⟩,
    ⟨?_, fun c hc => hdigits.isDigit c (List.mem_of_mem_drop hc)⟩, ?_, ?_⟩
  · rw [Decimal.positional, if_neg (by omega), hplaces]
    simp only [hpadded]
  · simp [hdigits.ne_nil]
    omega
  · by_cases hshort : (Nat.toDigits 10 d.digits).length ≤ places
    · rw [List.length_take]
      omega
    · rw [List.head?_take, if_neg (by omega), ← hpadded,
        show places + 1 - (Nat.toDigits 10 d.digits).length = 0 by omega] at hzero
      exact absurd hzero (head?_toDigits hpos)
  · simp
    omega
  · rw [List.take_append_drop, hvalue]
  · rw [List.length_drop]
    omega

theorem ofLexeme?_positional (hfin : x.isFinite = true) (hpos : 0 < x.magnitudeBits)
    (h : Binary64.NearestDecimal x.magnitudeBits d.digits d.power) :
    ofLexeme? (sign x.isNegative ++ d.positional true) = some (double x) := by
  rcases lt_or_ge d.power 0 with hpower | hpower
  · obtain ⟨whole, decimals, htext, hwhole, hdecimals, hvalue, hplaces⟩ :=
      positional_of_neg (h.digits_pos hpos) hpower true
    rw [htext, ofLexeme?_point hwhole hdecimals, hvalue]
    refine ofDouble?_ofDecimal hfin hpos ?_
    convert h using 1
  · -- a zero stands behind the point
    obtain ⟨whole, htext, hwhole, hvalue⟩ := positional_of_nonneg (h.digits_pos hpos) hpower true
    rw [htext, if_pos rfl, ofLexeme?_point hwhole ⟨by simp, by simp⟩, value_append, hvalue]
    refine ofDouble?_ofDecimal hfin hpos ?_
    rw [← Binary64.nearestDecimal_append_zeros (d.power.toNat + 1)] at h
    convert h using 1
    · simp only [List.length_singleton, show value ['0'] = 0 from rfl]
      ring
    · simp only [List.length_singleton]
      omega

/-- A whole number written with its sign. -/
theorem integer?_signed (i : Int) :
    integer? ((if i < 0 then '-' else '+') :: Nat.toDigits 10 i.natAbs) = some i := by
  have hdigits := (digits_toDigits i.natAbs).digits?
  rw [value_toDigits] at hdigits
  by_cases h : i < 0
  · rw [if_pos h, integer?, hdigits]
    exact congrArg some (show -(i.natAbs : Int) = i by omega)
  · rw [if_neg h, integer?, hdigits]
    exact congrArg some (show (i.natAbs : Int) = i by omega)

theorem ofLexeme?_scientific (hfin : x.isFinite = true) (hpos : 0 < x.magnitudeBits)
    (h : Binary64.NearestDecimal x.magnitudeBits d.digits d.power) :
    ofLexeme? (sign x.isNegative ++
      d.scientific (d.power + Decimal.digitCount d.digits - 1)) = some (double x) := by
  have hall := (digits_toDigits d.digits).isDigit
  have hvalue := value_toDigits d.digits
  obtain ⟨first, rest, hdigits⟩ := List.exists_cons_of_ne_nil (@Nat.toDigits_ne_nil d.digits 10)
  rw [hdigits] at hall hvalue
  have hwhole : Whole [first] := ⟨⟨by simp, fun c hc => hall c (by simp_all)⟩, fun _ => rfl⟩
  generalize hleading : d.power + Decimal.digitCount d.digits - 1 = leading
  have htext : d.scientific leading = [first] ++ ((if rest = [] then [] else '.' :: rest) ++
      'e' :: (if leading < 0 then '-' else '+') :: Nat.toDigits 10 leading.natAbs) := by
    rw [Decimal.scientific, hdigits]
    cases rest <;> rfl
  rw [htext, ofLexeme?_exponent hwhole (fun c hc => hall c (List.mem_cons_of_mem _ hc))
    (integer?_signed leading), List.singleton_append, hvalue]
  refine ofDouble?_ofDecimal hfin hpos ?_
  convert h using 1
  rw [← hleading, Decimal.digitCount, hdigits, List.length_cons]
  omega

/-- **The layout of a finite double.** -/
theorem jsonText_eq (hfin : x.isFinite = true) :
    x.jsonText = sign x.isNegative ++
      let d := x.shortest .toEven
      let leading := d.power + Decimal.digitCount d.digits - 1
      if NumberLayout.json.isPositional leading then d.positional true else d.scientific leading := by
  have hnan : x.isNaN = false := by
    simp only [Binary64.isFinite, Binary64.isNaN, decide_eq_true_eq, decide_eq_false_iff_not] at *
    omega
  have hinf : x.isInfinite = false := by
    simp only [Binary64.isFinite, Binary64.isInfinite, decide_eq_true_eq, beq_eq_false_iff_ne] at *
    omega
  simp only [Binary64.jsonText, Binary64.text, hnan, hinf, Bool.false_eq_true, if_false, sign]
  rfl

/-- **The text of a finite double is read back as it.** -/
theorem ofLexeme?_jsonText (hfin : x.isFinite = true) : ofLexeme? x.jsonText = some (double x) := by
  rw [jsonText_eq hfin]
  rcases Nat.eq_zero_or_pos x.magnitudeBits with hzero | hpos
  · have hshortest : x.shortest .toEven = ⟨0, 0⟩ := by simp [Binary64.shortest, Binary64.isZero, hzero]
    have hpoint := @ofLexeme?_point x.isNegative ['0'] ['0'] (whole_toDigits 0) (digits_toDigits 0)
    have hself : Binary64.ofSignMagnitude x.isNegative 0 = x := by
      rw [← hzero, ofSignMagnitude_self]
    rw [hshortest]
    refine hpoint.trans ?_
    rw [show value (['0'] ++ ['0']) = 0 from rfl, Binary64.ofDecimal, if_pos rfl, hself, ofDouble?,
      if_pos hfin]
  · have hnear := Binary64.nearestDecimal_shortest .toEven hpos
    simp only
    split
    · exact ofLexeme?_positional hfin hpos hnear
    · exact ofLexeme?_scientific hfin hpos hnear

end Doubles

/-! ## Numbers -/

/-- **A number that text can write**: a 64-bit integer or a finite double. -/
def Readable : Number → Prop
  | int i => isInt64 i ∨ isUInt64 i
  | double x => x.isFinite

theorem readable_of_ofDouble? {x : Binary64} {n : Number} (h : ofDouble? x = some n) :
    n.Readable := by
  rw [ofDouble?] at h
  split at h
  · obtain rfl := Option.some.inj h
    assumption
  · cases h

theorem readable_of_ofNumeral? {negative : Bool} {i : Nat} {n : Number}
    (h : ofNumeral? negative i = some n) : n.Readable := by
  rw [ofNumeral?] at h
  split at h
  · split at h
    · obtain rfl := Option.some.inj h
      exact (rfl : Binary64.isFinite (.ofSignMagnitude true 0) = true)
    · split at h
      · obtain rfl := Option.some.inj h
        exact .inl ‹_›
      · exact readable_of_ofDouble? h
  · split at h
    · obtain rfl := Option.some.inj h
      exact .inr ‹_›
    · exact readable_of_ofDouble? h

open Lexer in
theorem isNumeralPart_of_isDigit {c : Char} (h : c.isDigit = true) : isNumeralPart c = true := by
  simp [isNumeralPart, h]

theorem isNumeralPart_of_digits? {cs : List Char} {n : Nat} (h : digits? cs = some n) :
    ∀ c ∈ cs, Lexer.isNumeralPart c = true := fun c hc =>
  isNumeralPart_of_isDigit ((digits?_eq_some_iff.mp h).1.isDigit c hc)

theorem isNumeralPart_of_integer? {cs : List Char} {i : Int} (h : integer? cs = some i) :
    ∀ c ∈ cs, Lexer.isNumeralPart c = true := by
  unfold integer? at h
  split at h <;> obtain ⟨i, hi, -⟩ := Option.map_eq_some_iff.mp h <;>
    obtain ⟨n, hn, -⟩ := Option.bind_eq_some_iff.mp hi
  · exact List.forall_mem_cons.mpr ⟨rfl, isNumeralPart_of_digits? hn⟩
  · exact List.forall_mem_cons.mpr ⟨rfl, isNumeralPart_of_digits? hn⟩
  · exact isNumeralPart_of_digits? hn

theorem isNumeralPart_of_exponent? {cs : List Char} {power : Option Int}
    (h : exponent? cs = some power) : ∀ c ∈ cs, Lexer.isNumeralPart c = true := by
  cases cs with
  | nil => simp
  | cons e rest =>
    rw [exponent?] at h
    split at h
    · rename_i he
      obtain ⟨i, hi, -⟩ := Option.map_eq_some_iff.mp h
      refine List.forall_mem_cons.mpr ⟨?_, isNumeralPart_of_integer? hi⟩
      rcases he with rfl | rfl <;> rfl
    · cases h

/-- What follows the whole digits is made of the characters of numerals, and gives what is
readable. -/
theorem of_afterWhole {negative : Bool} {whole rest : List Char} {n : Number}
    (h : afterWhole negative whole rest = some n) :
    (∀ c ∈ rest, Lexer.isNumeralPart c = true) ∧ n.Readable := by
  have hlast {decimals : Option (List Char)} {rest : List Char}
      (h : (match exponent? rest, decimals with
        | none, _ => none
        | some none, none => ofNumeral? negative (value whole)
        | some power, decimals =>
          let decimals := decimals.getD []
          ofDouble? (Binary64.ofDecimal negative (value (whole ++ decimals))
            (power.getD 0 - decimals.length))) = some n) :
      (∀ c ∈ rest, Lexer.isNumeralPart c = true) ∧ n.Readable := by
    split at h
    · cases h
    · exact ⟨isNumeralPart_of_exponent? ‹_›, readable_of_ofNumeral? h⟩
    · exact ⟨isNumeralPart_of_exponent? ‹_›, readable_of_ofDouble? h⟩
  unfold afterWhole at h
  split at h
  · cases h
  · rename_i decimals tail hplaces
    split at hplaces
    · rename_i rest
      have happend : (span rest).1 ++ (span rest).2 = rest := List.takeWhile_append_dropWhile
      simp only at hplaces
      split at hplaces
      · cases hplaces
      · obtain ⟨rfl, rfl⟩ := Prod.mk.inj (Option.some.inj hplaces)
        obtain ⟨htail, hread⟩ := hlast h
        refine ⟨List.forall_mem_cons.mpr ⟨rfl, fun c hc => ?_⟩, hread⟩
        rw [← happend] at hc
        rcases List.mem_append.mp hc with hc | hc
        · exact isNumeralPart_of_isDigit ((List.all_eq_true.mp (List.all_takeWhile ..) c hc))
        · exact htail c hc
    · obtain ⟨rfl, rfl⟩ := Prod.mk.inj (Option.some.inj hplaces)
      exact hlast h

/-- **A lexeme is a sign, whole digits, and what follows them.** -/
theorem exists_of_ofLexeme? {cs : List Char} {n : Number} (h : ofLexeme? cs = some n) :
    ∃ negative whole rest, cs = sign negative ++ (whole ++ rest) ∧ Digits whole ∧
      afterWhole negative whole rest = some n := by
  have hwhole {negative : Bool} {ds : List Char}
      (h : (let (whole, rest) := span ds
        if whole.isEmpty || (whole.head? == some '0' && 1 < whole.length) then none
        else afterWhole negative whole rest) = some n) :
      ∃ whole rest, ds = whole ++ rest ∧ Digits whole ∧ afterWhole negative whole rest = some n := by
    simp only at h
    split at h
    · cases h
    · rename_i hok
      refine ⟨_, _, List.takeWhile_append_dropWhile.symm, ⟨fun hnil => hok ?_, fun c hc =>
        (List.all_eq_true.mp (List.all_takeWhile ..) c hc)⟩, h⟩
      simp [span, hnil]
  unfold ofLexeme? at h
  split at h
  rename_i negative ds hsplit
  obtain ⟨whole, rest, rfl, hdigits, hrest⟩ := hwhole h
  refine ⟨negative, whole, rest, ?_, hdigits, hrest⟩
  split at hsplit
  · obtain ⟨rfl, rfl⟩ := Prod.mk.inj hsplit
    rfl
  · obtain ⟨rfl, rfl⟩ := Prod.mk.inj hsplit
    rfl

/-- **What is read is readable.** -/
theorem readable_of_ofLexeme? {cs : List Char} {n : Number} (h : ofLexeme? cs = some n) :
    n.Readable := by
  obtain ⟨negative, whole, rest, -, -, hrest⟩ := exists_of_ofLexeme? h
  exact (of_afterWhole hrest).2

/-- A lexeme stands in the characters of numerals. -/
theorem isNumeralPart_of_ofLexeme? {cs : List Char} {n : Number} (h : ofLexeme? cs = some n) :
    ∀ c ∈ cs, Lexer.isNumeralPart c = true := by
  obtain ⟨negative, whole, rest, rfl, hwhole, hrest⟩ := exists_of_ofLexeme? h
  intro c hc
  rcases List.mem_append.mp hc with hc | hc
  · obtain rfl : c = '-' := by
      cases negative <;> simp_all [sign]
    rfl
  · rcases List.mem_append.mp hc with hc | hc
    · exact isNumeralPart_of_isDigit (hwhole.isDigit c hc)
    · exact (of_afterWhole hrest).1 c hc

/-- … and begins with one that may start a numeral. -/
theorem isNumeralStart_of_ofLexeme? {cs : List Char} {n : Number} (h : ofLexeme? cs = some n) :
    ∃ c ds, cs = c :: ds ∧ Lexer.isNumeralStart c = true := by
  obtain ⟨negative, whole, rest, rfl, hwhole, -⟩ := exists_of_ofLexeme? h
  obtain ⟨d, ds, rfl⟩ := List.exists_cons_of_ne_nil hwhole.ne_nil
  cases negative with
  | true => exact ⟨'-', _, rfl, rfl⟩
  | false =>
    have hd := hwhole.isDigit d List.mem_cons_self
    exact ⟨d, _, rfl, by simp [Lexer.isNumeralStart, hd]⟩

theorem isInt64_iff {i : Int} :
    isInt64 i = true ↔ Binary64.leastInt64 ≤ i ∧ i ≤ Binary64.greatestInt64 := by
  rw [isInt64, Bool.and_eq_true, decide_eq_true_eq, decide_eq_true_eq]

theorem isUInt64_iff {i : Int} : isUInt64 i = true ↔ 0 ≤ i ∧ i ≤ greatestUInt64 := by
  rw [isUInt64, Bool.and_eq_true, decide_eq_true_eq, decide_eq_true_eq]

/-- **The text of an integer** is its sign and its digits. -/
theorem toList_toString (i : Int) :
    (toString i).toList = sign (decide (i < 0)) ++ Nat.toDigits 10 i.natAbs := by
  cases i with
  | ofNat m => exact Nat.toList_repr
  | negSucc m =>
    rw [decide_eq_true (Int.negSucc_lt_zero m), Int.natAbs_negSucc, ← Nat.toList_repr]
    exact String.toList_append

/-- **The text of a number is read back as the number.** -/
theorem ofLexeme?_text {n : Number} (h : n.Readable) : ofLexeme? n.text = some n := by
  cases n with
  | double x =>
    have hfin : x.isFinite = true := h
    rw [text, if_pos hfin, ofLexeme?_jsonText hfin]
  | int i =>
    have hrange : isInt64 i ∨ isUInt64 i := h
    rw [text, toList_toString, ofLexeme?_numeral (whole_toDigits _), value_toDigits, ofNumeral?]
    simp only [isInt64_iff, isUInt64_iff, Binary64.greatestInt64, Binary64.leastInt64,
      greatestUInt64] at hrange ⊢
    by_cases hneg : i < 0
    · rw [decide_eq_true hneg, if_pos rfl, if_neg (by omega), if_pos (by omega)]
      exact congrArg (some ∘ int) (by omega)
    · rw [decide_eq_false hneg, if_neg Bool.false_ne_true, if_pos (by omega)]
      exact congrArg (some ∘ int) (by omega)

end Number

end FeatureFlags
