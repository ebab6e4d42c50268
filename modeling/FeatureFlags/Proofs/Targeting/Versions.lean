import FeatureFlags.Proofs.Collections.Results
import FeatureFlags.Proofs.Json.Numerals
import FeatureFlags.Targeting.Operation
import Mathlib.Data.List.GetD

/-!
# Proofs/Targeting/Versions — the texts that are read as versions

`Version.Parts` are the numbers and the identifiers of a version, `Version.Spelling` has the blanks and
the mark around them too.  The texts of the well-formed spellings are read, each as the version that
its parts write, and no others (`Version.parse?_eq_some_iff`).

The reader tries a text as it is and again with the numbers that it leaves out.  Every text is that
of some parts (`Parts.exists_text`), so both attempts can be told by the parts alone: the first one
succeeds on three numbers (`full?_text`), and the other one reads `Parts.padded` (`padded_text`).
-/

namespace FeatureFlags

/-- The identifier that a text writes. -/
def Identifier.ofText (cs : List Char) : Identifier :=
  if cs.all Char.isDigit then .number (Numeral.value cs) else .word cs

namespace Version

/-! ## The grammar -/

/-- **A number**: digits with no leading zero, of at most 64 bits. -/
structure IsNumber (cs : List Char) : Prop extends Numeral.Whole cs where
  le_greatest64 : Numeral.value cs ≤ Numeral.greatest64

/-- **An identifier**: letters, digits and hyphens. -/
structure IsIdentifier (cs : List Char) : Prop where
  ne_nil : cs ≠ []
  chars : ∀ c ∈ cs, c.isAlphanum = true ∨ c = '-'

/-- An identifier of a pre-release has no leading zero if it is a number. -/
structure IsPreReleaseIdentifier (cs : List Char) : Prop extends IsIdentifier cs where
  noLeadingZero : (∀ c ∈ cs, c.isDigit = true) → cs.head? = some '0' → cs.length = 1

/-- Parts with a dot between each two. -/
def dotted (parts : List (List Char)) : List Char := ['.'].intercalate parts

/-- A sign and what it begins, if that is there. -/
def suffix (sign : Char) : Option (List Char) → List Char
  | none => []
  | some cs => sign :: cs

/-- **The parts of a version.** -/
structure Parts where
  numbers : List (List Char)
  preRelease : Option (List (List Char))
  build : Option (List (List Char))

namespace Parts

def text (p : Parts) : List Char :=
  dotted p.numbers ++ suffix '-' (p.preRelease.map dotted) ++ suffix '+' (p.build.map dotted)

/-- **The grammar of versions**: one, two or three numbers, then a pre-release and build metadata,
each a list of identifiers that may be absent but not empty. -/
structure WellFormed (p : Parts) : Prop where
  numbers_ne_nil : p.numbers ≠ []
  numbers_length_le : p.numbers.length ≤ 3
  numbers : ∀ cs ∈ p.numbers, IsNumber cs
  preRelease : ∀ ids ∈ p.preRelease, ids ≠ [] ∧ ∀ cs ∈ ids, IsPreReleaseIdentifier cs
  build : ∀ ids ∈ p.build, ids ≠ [] ∧ ∀ cs ∈ ids, IsIdentifier cs

/-- The number at a place; one that is left out is zero. -/
def number (p : Parts) (place : Nat) : Nat := (p.numbers.map Numeral.value).getD place 0

/-- **The version that the parts write.** -/
def version (p : Parts) : Version where
  major := p.number 0
  minor := p.number 1
  patch := p.number 2
  preRelease := (p.preRelease.getD []).map Identifier.ofText

/-- The parts with the numbers that they leave out. -/
def padded (p : Parts) : Parts :=
  { p with numbers := p.numbers ++ List.replicate (3 - p.numbers.length) ['0'] }

/-- **Parts that can be told apart**: in none of them stands what would end it. -/
structure Apart (p : Parts) : Prop where
  numbers_ne_nil : p.numbers ≠ []
  numbers : ∀ cs ∈ p.numbers, '.' ∉ cs ∧ '-' ∉ cs ∧ '+' ∉ cs
  preRelease : ∀ ids ∈ p.preRelease, ids ≠ [] ∧ ∀ cs ∈ ids, '.' ∉ cs ∧ '+' ∉ cs
  build : ∀ ids ∈ p.build, ids ≠ [] ∧ ∀ cs ∈ ids, '.' ∉ cs

end Parts

/-- **The text of a version by its parts**, with blanks around it and perhaps a mark in front. -/
structure Spelling extends Parts where
  before : List Char
  mark : Option Char
  after : List Char

namespace Spelling

def text (s : Spelling) : List Char := s.before ++ (s.mark.toList ++ s.toParts.text) ++ s.after

/-- **The grammar of the texts that are read.** -/
structure WellFormed (s : Spelling) : Prop extends s.toParts.WellFormed where
  before : ∀ c ∈ s.before, Blank.isBlank c = true
  mark : ∀ c ∈ s.mark, c = 'v' ∨ c = 'V'
  after : ∀ c ∈ s.after, Blank.isBlank c = true

end Spelling

/-- **The text writes the version**, in a spelling of the grammar. -/
def Writes (text : String) (v : Version) : Prop :=
  ∃ s : Spelling, s.WellFormed ∧ s.text = text.toList ∧ s.version = v

/-! ## Numbers and identifiers -/

section Identifiers

variable {cs : List Char}

theorem number?_eq_some_iff {n : Nat} :
    number? cs = some n ↔ IsNumber cs ∧ Numeral.value cs = n := by
  unfold number?
  split
  · refine ⟨fun h => ⟨⟨Numeral.whole_toDigits 0, Nat.zero_le _⟩, Option.some.inj h⟩, ?_⟩
    rintro ⟨-, rfl⟩
    rfl
  · rename_i rest hrest
    refine ⟨fun h => (by cases h), fun ⟨h, _⟩ => absurd (h.noLeadingZero rfl) fun hlength => ?_⟩
    exact hrest (List.length_eq_zero_iff.mp (Nat.succ.inj hlength))
  · rename_i hone hzero
    have hhead : cs.head? ≠ some '0' := fun h => by
      obtain ⟨rest, rfl⟩ := List.head?_eq_some_iff.mp h
      exact hzero rest rfl
    rw [Option.filter_eq_some_iff, Numeral.digits?_eq_some_iff, decide_eq_true_eq]
    constructor
    · rintro ⟨⟨hdigits, rfl⟩, hle⟩
      exact ⟨⟨⟨hdigits, fun h => absurd h hhead⟩, hle⟩, rfl⟩
    · rintro ⟨h, rfl⟩
      exact ⟨⟨h.toDigits, rfl⟩, h.le_greatest64⟩

theorem isBuildIdentifier_iff : isBuildIdentifier cs = true ↔ IsIdentifier cs := by
  simp only [isBuildIdentifier, isIdentifierChar, Bool.and_eq_true, Bool.not_eq_true',
    List.isEmpty_eq_false_iff, List.all_eq_true, Bool.or_eq_true, decide_eq_true_eq]
  exact ⟨fun h => ⟨h.1, h.2⟩, fun h => ⟨h.ne_nil, h.chars⟩⟩

/-- An identifier that is no number is a word. -/
theorem identifier?_of_word (h : IsIdentifier cs) (hword : ¬ ∀ c ∈ cs, c.isDigit = true) :
    identifier? cs = some (.word cs) := by
  have hnone : Numeral.digits? cs = none := Option.eq_none_iff_forall_ne_some.mpr fun n hn =>
    hword (Numeral.digits?_eq_some_iff.mp hn).1.isDigit
  rw [identifier?, isBuildIdentifier_iff.mpr h, hnone]
  rfl

/-- Digits are a number, unless they have a leading zero. -/
theorem identifier?_of_digits (h : IsIdentifier cs) (hdigits : ∀ c ∈ cs, c.isDigit = true) :
    identifier? cs =
      if 1 < cs.length ∧ cs.head? = some '0' then none else some (.number (Numeral.value cs)) := by
  rw [identifier?, isBuildIdentifier_iff.mpr h, Numeral.Digits.digits? ⟨h.ne_nil, hdigits⟩]
  simp

theorem identifier?_eq_some_iff {i : Identifier} :
    identifier? cs = some i ↔ IsPreReleaseIdentifier cs ∧ Identifier.ofText cs = i := by
  by_cases hid : IsIdentifier cs
  · rw [Identifier.ofText]
    by_cases hdigits : ∀ c ∈ cs, c.isDigit = true
    · rw [identifier?_of_digits hid hdigits, if_pos (List.all_eq_true.mpr hdigits)]
      have hlength := List.length_pos_iff.mpr hid.ne_nil
      split
      · rename_i hzero
        refine iff_of_false nofun fun h => ?_
        have := h.1.noLeadingZero hdigits hzero.2
        omega
      · rename_i hone
        rw [Option.some.injEq]
        refine ⟨fun h => ⟨⟨hid, fun _ hhead => ?_⟩, h⟩, And.right⟩
        by_contra hlength
        exact hone ⟨by omega, hhead⟩
    · rw [identifier?_of_word hid hdigits, if_neg (mt List.all_eq_true.mp hdigits), Option.some.injEq]
      exact ⟨fun h => ⟨⟨hid, fun hall => absurd hall hdigits⟩, h⟩, And.right⟩
  · have hnone : identifier? cs = none := by
      rw [identifier?, if_pos (by simpa using mt isBuildIdentifier_iff.mp hid)]
    rw [hnone]
    exact iff_of_false nofun fun h => hid h.1.toIsIdentifier

/-- No other sign stands in an identifier. -/
theorem IsIdentifier.notMem (h : IsIdentifier cs) {sign : Char} (hsign : sign.isAlphanum = false)
    (hhyphen : sign ≠ '-') : sign ∉ cs := by
  intro hmem
  rcases h.chars sign hmem with hc | hc
  · rw [hsign] at hc
    cases hc
  · exact hhyphen hc

theorem IsNumber.notMem (h : IsNumber cs) {sign : Char} (hsign : sign.isDigit = false) :
    sign ∉ cs := by
  intro hmem
  have := h.isDigit sign hmem
  rw [hsign] at this
  cases this

/-- An identifier is made of visible characters. -/
theorem IsIdentifier.not_isBlank (h : IsIdentifier cs) {c : Char} (hc : c ∈ cs) :
    Blank.isBlank c = false := by
  rcases h.chars c hc with hc | rfl
  · exact Blank.isBlank_of_isAlphanum hc
  · rfl

theorem IsNumber.isIdentifier (h : IsNumber cs) : IsIdentifier cs :=
  ⟨h.ne_nil, fun c hc => .inl ((Bool.or_eq_true _ _).mpr (.inr (h.isDigit c hc)))⟩

end Identifiers

/-! ## Taking a text apart -/

section Cutting

variable {sign : Char} {cs before : List Char} {parts : List (List Char)}

theorem cutAt_append (h : sign ∉ before) (after : Option (List Char)) :
    cutAt sign (before ++ suffix sign after) = (before, after) := by
  have hbefore : ∀ c ∈ before, decide (c ≠ sign) = true := fun c hc =>
    decide_eq_true fun heq => h (heq ▸ hc)
  have hafter : ∀ c ∈ (suffix sign after).head?, decide (c ≠ sign) = false := by
    cases after with
    | none => simp [suffix]
    | some rest => simp [suffix]
  obtain ⟨htake, hdrop⟩ := span_append hbefore hafter
  rw [cutAt, htake, hdrop]
  cases after with
  | none => simp [suffix]
  | some rest => rfl

/-- **Every text can be cut** at the first place where a sign stands. -/
theorem exists_suffix (sign : Char) (cs : List Char) :
    ∃ before after, sign ∉ before ∧ before ++ suffix sign after = cs := by
  by_cases h : sign ∈ cs
  · obtain ⟨before, after, rfl, hbefore⟩ := List.eq_append_cons_of_mem h
    exact ⟨before, some after, hbefore, rfl⟩
  · exact ⟨cs, none, h, List.append_nil cs⟩

theorem splitOn_dotted (hne : parts ≠ []) (h : ∀ cs ∈ parts, '.' ∉ cs) :
    (dotted parts).splitOn '.' = parts :=
  List.splitOn_intercalate '.' h hne

@[simp] theorem dotted_splitOn (cs : List Char) : dotted (cs.splitOn '.') = cs :=
  List.intercalate_splitOn '.'

theorem mem_dotted {c : Char} (hne : c ≠ '.') : c ∈ dotted parts ↔ ∃ cs ∈ parts, c ∈ cs :=
  mem_intercalate hne

end Cutting

namespace Parts

variable {p : Parts}

/-- **Every text is the text of parts** that can be told apart. -/
theorem exists_text (cs : List Char) : ∃ p : Parts, p.Apart ∧ p.text = cs := by
  obtain ⟨main, build, hmain, rfl⟩ := exists_suffix '+' cs
  obtain ⟨core, preRelease, hcore, rfl⟩ := exists_suffix '-' main
  have hsplit {o : Option (List Char)} : (o.map (List.splitOn '.')).map dotted = o := by
    cases o with
    | none => rfl
    | some cs => exact congrArg some (dotted_splitOn cs)
  refine ⟨⟨core.splitOn '.', preRelease.map (List.splitOn '.'), build.map (List.splitOn '.')⟩,
    ⟨List.splitOn_ne_nil _ _, fun cs hcs => ?_, fun ids hids => ?_, fun ids hids => ?_⟩, ?_⟩
  · refine ⟨notMem_of_mem_splitOn hcs, fun hc => hcore (mem_of_mem_splitOn hcs hc), fun hc => ?_⟩
    exact hmain (List.mem_append_left _ (mem_of_mem_splitOn hcs hc))
  · obtain ⟨pre, rfl, rfl⟩ := Option.map_eq_some_iff.mp hids
    refine ⟨List.splitOn_ne_nil _ _, fun cs hcs => ⟨notMem_of_mem_splitOn hcs, fun hc => ?_⟩⟩
    exact hmain (List.mem_append_right _ (List.mem_cons_of_mem _ (mem_of_mem_splitOn hcs hc)))
  · obtain ⟨b, rfl, rfl⟩ := Option.map_eq_some_iff.mp hids
    exact ⟨List.splitOn_ne_nil _ _, fun cs hcs => notMem_of_mem_splitOn hcs⟩
  · rw [text, hsplit, hsplit, dotted_splitOn]

theorem WellFormed.apart (h : p.WellFormed) : p.Apart where
  numbers_ne_nil := h.numbers_ne_nil
  numbers cs hcs := ⟨(h.numbers cs hcs).notMem rfl, (h.numbers cs hcs).notMem rfl,
    (h.numbers cs hcs).notMem rfl⟩
  preRelease ids hids := ⟨(h.preRelease ids hids).1, fun cs hcs =>
    have hid := ((h.preRelease ids hids).2 cs hcs).toIsIdentifier
    ⟨hid.notMem rfl (by decide), hid.notMem rfl (by decide)⟩⟩
  build ids hids := ⟨(h.build ids hids).1, fun cs hcs =>
    ((h.build ids hids).2 cs hcs).notMem rfl (by decide)⟩

/-- The numbers end at the first sign. -/
theorem Apart.ne_of_mem_numbers (h : p.Apart) {c : Char} (hc : c ∈ dotted p.numbers) :
    c ≠ '-' ∧ c ≠ '+' := by
  by_cases hdot : c = '.'
  · subst hdot
    decide
  · obtain ⟨cs, hcs, hc⟩ := (mem_dotted hdot).mp hc
    obtain ⟨-, hminus, hplus⟩ := h.numbers cs hcs
    exact ⟨fun heq => hminus (heq ▸ hc), fun heq => hplus (heq ▸ hc)⟩

/-- No plus sign stands before the build metadata. -/
theorem Apart.plus_notMem (h : p.Apart) :
    '+' ∉ dotted p.numbers ++ suffix '-' (p.preRelease.map dotted) := by
  rw [List.mem_append, not_or]
  refine ⟨fun hc => (h.ne_of_mem_numbers hc).2 rfl, ?_⟩
  cases hpre : p.preRelease with
  | none => exact List.not_mem_nil
  | some ids =>
    rw [Option.map_some, suffix, List.mem_cons, mem_dotted (by decide), not_or]
    exact ⟨by decide, fun ⟨cs, hcs, hc⟩ => ((h.preRelease ids hpre).2 cs hcs).2 hc⟩

end Parts

/-! ## Reading the parts -/

section Reading

variable {o : Option (List (List Char))} {p : Parts} {v : Version}

theorem preRelease?_dotted (h : ∀ ids ∈ o, ids ≠ [] ∧ ∀ cs ∈ ids, '.' ∉ cs)
    {identifiers : List Identifier} :
    preRelease? (o.map dotted) = some identifiers ↔
      (∀ ids ∈ o, ids ≠ [] ∧ ∀ cs ∈ ids, IsPreReleaseIdentifier cs) ∧
        (o.getD []).map Identifier.ofText = identifiers := by
  cases o with
  | none => simp [preRelease?]
  | some ids =>
    obtain ⟨hne, hdots⟩ := h ids rfl
    rw [Option.map_some, preRelease?, splitOn_dotted hne hdots,
      mapM_eq_some_map_iff fun _ _ => identifier?_eq_some_iff]
    simp [hne]

theorem buildOk_dotted (h : ∀ ids ∈ o, ids ≠ [] ∧ ∀ cs ∈ ids, '.' ∉ cs) :
    buildOk (o.map dotted) = true ↔ ∀ ids ∈ o, ids ≠ [] ∧ ∀ cs ∈ ids, IsIdentifier cs := by
  cases o with
  | none => simp [buildOk]
  | some ids =>
    obtain ⟨hne, hdots⟩ := h ids rfl
    simp [buildOk, splitOn_dotted hne hdots, isBuildIdentifier_iff, hne]

theorem numbers?_eq_some_iff {numbers : List (List Char)} {ns : List Nat} :
    numbers.mapM number? = some ns ↔
      (∀ cs ∈ numbers, IsNumber cs) ∧ numbers.map Numeral.value = ns :=
  mapM_eq_some_map_iff fun _ _ => number?_eq_some_iff

/-- **What the first attempt reads**: well-formed parts with all three numbers. -/
theorem full?_text (h : p.Apart) :
    full? p.text = some v ↔ p.WellFormed ∧ p.numbers.length = 3 ∧ p.version = v := by
  have hminus : '-' ∉ dotted p.numbers := fun hc => (h.ne_of_mem_numbers hc).1 rfl
  have hpre := @preRelease?_dotted p.preRelease fun ids hids =>
    ⟨(h.preRelease ids hids).1, fun cs hcs => ((h.preRelease ids hids).2 cs hcs).1⟩
  have hbuild := buildOk_dotted h.build
  simp only [full?, Parts.text, cutAt_append h.plus_notMem, cutAt_append hminus,
    splitOn_dotted h.numbers_ne_nil fun cs hcs => (h.numbers cs hcs).1]
  constructor
  · intro hread
    split at hread
    · rename_i major minor patch identifiers hthree hids
      obtain ⟨hnumbers, hvalues⟩ := numbers?_eq_some_iff.mp hthree
      obtain ⟨hidentifiers, rfl⟩ := hpre.mp hids
      have hlength := congrArg List.length hvalues
      rw [List.length_map, List.length_cons, List.length_cons, List.length_singleton] at hlength
      split at hread
      · obtain rfl := Option.some.inj hread
        refine ⟨⟨h.numbers_ne_nil, hlength.le, hnumbers, hidentifiers, hbuild.mp ‹_›⟩, hlength, ?_⟩
        simp [Parts.version, Parts.number, hvalues]
      · cases hread
    · cases hread
  · rintro ⟨hwf, hlength, rfl⟩
    obtain ⟨a, b, c, habc⟩ := List.length_eq_three.mp hlength
    rw [numbers?_eq_some_iff.mpr ⟨hwf.numbers, rfl⟩, hpre.mpr ⟨hwf.preRelease, rfl⟩]
    simp [habc, hbuild.mpr hwf.build, Parts.version, Parts.number]

/-- **What the second attempt reads**: the parts with the numbers that they leave out. -/
theorem padded_text (h : p.Apart) : padded p.text = p.padded.text := by
  have hcore : ∀ c ∈ dotted p.numbers, (!(decide (c = '-') || decide (c = '+'))) = true := by
    intro c hc
    obtain ⟨hminus, hplus⟩ := h.ne_of_mem_numbers hc
    simp [hminus, hplus]
  have htail : ∀ c ∈ (suffix '-' (p.preRelease.map dotted) ++ suffix '+' (p.build.map dotted)).head?,
      (!(decide (c = '-') || decide (c = '+'))) = false := by
    cases p.preRelease <;> cases p.build <;> simp [suffix]
  obtain ⟨htake, hdrop⟩ := span_append hcore htail
  have hsplit := splitOn_dotted h.numbers_ne_nil fun cs hcs => (h.numbers cs hcs).1
  rw [Parts.text, List.append_assoc, padded]
  simp only [htake, hdrop, hsplit, Parts.text, Parts.padded, List.append_assoc]
  rcases hnumbers : p.numbers with _ | ⟨a, _ | ⟨b, _ | ⟨c, rest⟩⟩⟩
  · exact absurd hnumbers h.numbers_ne_nil
  · simp [dotted]
  · simp [dotted]
  · simp

/-- **Zeros at the end** of the numbers write nothing new. -/
theorem version_append_zeros (p : Parts) (count : Nat) :
    { p with numbers := p.numbers ++ List.replicate count ['0'] : Parts }.version = p.version := by
  have hnumber (place : Nat) :
      { p with numbers := p.numbers ++ List.replicate count ['0'] : Parts }.number place =
        p.number place := by
    simp only [Parts.number, List.map_append, List.map_replicate]
    rw [show Numeral.value ['0'] = 0 from rfl]
    by_cases h : place < (p.numbers.map Numeral.value).length
    · exact List.getD_append _ _ _ _ h
    · rw [List.getD_append_right _ _ _ _ (not_lt.mp h), List.getD_eq_default _ _ (not_lt.mp h)]
      exact List.getElem?_getD_replicate_default_eq 0 count _
  simp only [Parts.version, hnumber]

theorem Parts.Apart.padded (h : p.Apart) : p.padded.Apart := by
  refine { h with
    numbers_ne_nil := fun hnil => h.numbers_ne_nil (List.append_eq_nil_iff.mp hnil).1
    numbers := fun cs hcs => ?_ }
  rcases List.mem_append.mp hcs with hcs | hcs
  · exact h.numbers cs hcs
  · rw [List.eq_of_mem_replicate hcs]
    decide

theorem isNumber_zero : IsNumber ['0'] := ⟨Numeral.whole_toDigits 0, Nat.zero_le _⟩

theorem padded_wellFormed_iff (h : p.Apart) : p.padded.WellFormed ↔ p.WellFormed := by
  have hlength : p.padded.numbers.length = p.numbers.length + (3 - p.numbers.length) := by
    rw [Parts.padded, List.length_append, List.length_replicate]
  constructor
  · intro hwf
    have hle := hwf.numbers_length_le
    exact ⟨h.numbers_ne_nil, by omega, fun cs hcs => hwf.numbers cs (List.mem_append_left _ hcs),
      hwf.preRelease, hwf.build⟩
  · intro hwf
    have hle := hwf.numbers_length_le
    refine ⟨h.padded.numbers_ne_nil, by omega, fun cs hcs => ?_, hwf.preRelease, hwf.build⟩
    rcases List.mem_append.mp hcs with hcs | hcs
    · exact hwf.numbers cs hcs
    · rw [List.eq_of_mem_replicate hcs]
      exact isNumber_zero

/-- **What the two attempts read.** -/
theorem attempts_text (h : p.Apart) :
    (full? p.text <|> full? (padded p.text)) = some v ↔ p.WellFormed ∧ p.version = v := by
  have hpadded : full? p.padded.text = some v ↔
      p.WellFormed ∧ p.padded.numbers.length = 3 ∧ p.version = v := by
    rw [full?_text h.padded, padded_wellFormed_iff h, Parts.padded, version_append_zeros]
  rw [padded_text h, Option.orElse_eq_orElse, Option.orElse_eq_or, Option.or_eq_some_iff]
  constructor
  · rintro (hread | ⟨-, hread⟩)
    · obtain ⟨hwf, -, hversion⟩ := (full?_text h).mp hread
      exact ⟨hwf, hversion⟩
    · obtain ⟨hwf, -, hversion⟩ := hpadded.mp hread
      exact ⟨hwf, hversion⟩
  · rintro ⟨hwf, hversion⟩
    cases hfirst : full? p.text with
    | some w =>
      obtain ⟨-, -, rfl⟩ := (full?_text h).mp hfirst
      exact .inl (congrArg some hversion)
    | none =>
      have hle := hwf.numbers_length_le
      refine .inr ⟨rfl, hpadded.mpr ⟨hwf, ?_, hversion⟩⟩
      rw [Parts.padded, List.length_append, List.length_replicate]
      omega

end Reading

/-! ## Blanks and the mark -/

section Stripping

/-- The text of well-formed parts begins with a digit. -/
theorem Parts.WellFormed.exists_digit {p : Parts} (h : p.WellFormed) :
    ∃ d rest, p.text = d :: rest ∧ d.isDigit = true := by
  obtain ⟨first, more, hnumbers⟩ := List.exists_cons_of_ne_nil h.numbers_ne_nil
  have hfirst := h.numbers first (hnumbers ▸ List.mem_cons_self)
  obtain ⟨d, ds, rfl⟩ := List.exists_cons_of_ne_nil hfirst.ne_nil
  have hdotted : ∃ rest, dotted ((d :: ds) :: more) = d :: rest := by
    cases more with
    | nil => exact ⟨ds, List.intercalate_singleton⟩
    | cons next more => exact ⟨_, List.intercalate_cons_cons⟩
  obtain ⟨rest, hrest⟩ := hdotted
  exact ⟨d, _, by rw [Parts.text, hnumbers, hrest]; rfl, hfirst.isDigit d List.mem_cons_self⟩

/-- The text of well-formed parts is made of visible characters. -/
theorem Parts.WellFormed.not_isBlank {p : Parts} (h : p.WellFormed) :
    ∀ c ∈ p.text, Blank.isBlank c = false := by
  have hdotted {parts : List (List Char)} (hparts : ∀ cs ∈ parts, IsIdentifier cs) {c : Char}
      (hc : c ∈ dotted parts) : Blank.isBlank c = false := by
    by_cases hdot : c = '.'
    · subst hdot
      rfl
    · obtain ⟨cs, hcs, hc⟩ := (mem_dotted hdot).mp hc
      exact (hparts cs hcs).not_isBlank hc
  have hsuffix {sign c : Char} {o : Option (List (List Char))} (hsign : Blank.isBlank sign = false)
      (ho : ∀ ids ∈ o, ∀ cs ∈ ids, IsIdentifier cs) (hc : c ∈ suffix sign (o.map dotted)) :
      Blank.isBlank c = false := by
    cases o with
    | none => cases hc
    | some ids =>
      rcases List.mem_cons.mp hc with rfl | hc
      · exact hsign
      · exact hdotted (ho ids rfl) hc
  intro c hc
  rw [Parts.text, List.append_assoc] at hc
  rcases List.mem_append.mp hc with hc | hc
  · exact hdotted (fun cs hcs => (h.numbers cs hcs).isIdentifier) hc
  rcases List.mem_append.mp hc with hc | hc
  · exact hsuffix rfl (fun ids hids cs hcs => ((h.preRelease ids hids).2 cs hcs).toIsIdentifier) hc
  · exact hsuffix rfl (fun ids hids => (h.build ids hids).2) hc

/-- **What is left of a spelling** without its blanks and its mark. -/
theorem Spelling.WellFormed.stripped_text {s : Spelling} (h : s.WellFormed) :
    stripped s.text = s.toParts.text := by
  have hmiddle : ∀ c ∈ s.mark.toList ++ s.toParts.text, Blank.isBlank c = false := by
    intro c hc
    rcases List.mem_append.mp hc with hc | hc
    · obtain rfl | rfl := h.mark c (Option.mem_toList.mp hc) <;> rfl
    · exact h.toWellFormed.not_isBlank c hc
  rw [stripped, Spelling.text, Blank.trim_append h.before hmiddle h.after]
  cases hmark : s.mark with
  | some c => obtain rfl | rfl := h.mark c hmark <;> rfl
  | none =>
    obtain ⟨d, rest, htext, hdigit⟩ := h.toWellFormed.exists_digit
    rw [htext]
    simp only [Option.toList_none, List.nil_append]
    split
    · rename_i hv
      obtain ⟨rfl, -⟩ := List.cons.inj hv
      cases hdigit
    · rename_i hv
      obtain ⟨rfl, -⟩ := List.cons.inj hv
      cases hdigit
    · rfl

/-- **Every text is what is left of it**, between blanks and with a mark or without. -/
theorem exists_stripped (cs : List Char) :
    ∃ (before : List Char) (mark : Option Char) (after : List Char),
      cs = before ++ (mark.toList ++ stripped cs) ++ after ∧
        (∀ c ∈ before, Blank.isBlank c = true) ∧ (∀ c ∈ mark, c = 'v' ∨ c = 'V') ∧
        ∀ c ∈ after, Blank.isBlank c = true := by
  obtain ⟨before, after, hcs, hbefore, hafter⟩ := Blank.exists_trim cs
  have hmark : ∃ mark : Option Char, Blank.trim cs = mark.toList ++ stripped cs ∧
      ∀ c ∈ mark, c = 'v' ∨ c = 'V' := by
    rw [stripped]
    split
    · exact ⟨some 'v', ‹_›, by simp⟩
    · exact ⟨some 'V', ‹_›, by simp⟩
    · exact ⟨none, rfl, by simp⟩
  obtain ⟨mark, htrim, hmark⟩ := hmark
  exact ⟨before, mark, after, htrim ▸ hcs, hbefore, hmark, hafter⟩

end Stripping

/-! ## Reading -/

/-- **A text is read as the version that it writes.** -/
theorem parse?_eq_some_iff {text : String} {v : Version} : parse? text = some v ↔ Writes text v := by
  rw [parse?]
  constructor
  · intro h
    obtain ⟨before, mark, after, htext, hbefore, hmark, hafter⟩ := exists_stripped text.toList
    obtain ⟨p, hapart, hp⟩ := Parts.exists_text (stripped text.toList)
    rw [← hp] at h
    obtain ⟨hwf, rfl⟩ := (attempts_text hapart).mp h
    refine ⟨{ p with before, mark, after }, ⟨hwf, hbefore, hmark, hafter⟩, ?_, rfl⟩
    rw [Spelling.text, hp]
    exact htext.symm
  · rintro ⟨s, hwf, htext, rfl⟩
    rw [← htext]
    simp only [hwf.stripped_text]
    exact (attempts_text hwf.toWellFormed.apart).mpr ⟨hwf.toWellFormed, rfl⟩

theorem parse?_eq_none_iff {text : String} : parse? text = none ↔ ¬ ∃ v, Writes text v := by
  simp only [← parse?_eq_some_iff, ← Option.isSome_iff_exists, Option.not_isSome_iff_eq_none]

end Version

namespace Operation

variable {left relation right : String} {data : Json}

/-- **Two versions are compared** as the relation says. -/
theorem compareVersions_of_parse? {a b : Version} {r : VersionRelation}
    (ha : Version.parse? left = some a) (hr : VersionRelation.ofText? relation = some r)
    (hb : Version.parse? right = some b) :
    compareVersions [.str left, .str relation, .str right] data = .ok (.bool (r.holds a b)) := by
  simp only [compareVersions, ha, hr, hb]

/-- **No answer** without two versions and a relation. -/
theorem compareVersions_eq_null_iff :
    compareVersions [.str left, .str relation, .str right] data = .ok .null ↔
      Version.parse? left = none ∨ VersionRelation.ofText? relation = none ∨
        Version.parse? right = none := by
  cases ha : Version.parse? left with
  | none => simp [compareVersions, ha]
  | some a =>
    cases hr : VersionRelation.ofText? relation with
    | none => simp [compareVersions, ha, hr]
    | some r =>
      cases hb : Version.parse? right with
      | none => simp [compareVersions, ha, hr, hb]
      | some b => simp [compareVersions_of_parse? ha hr hb]

end Operation

namespace Version

/-- **Exactly the texts of the grammar are read**, as the versions that they write; a comparison with
any other text has no answer. -/
theorem reads_exactly :
    (∀ text v, parse? text = some v ↔ Writes text v) ∧
      ∀ left relation right data,
        Operation.compareVersions [.str left, .str relation, .str right] data = .ok .null ↔
          (¬ ∃ a, Writes left a) ∨ VersionRelation.ofText? relation = none ∨ ¬ ∃ b, Writes right b := by
  refine ⟨fun text v => parse?_eq_some_iff, fun left relation right data => ?_⟩
  rw [Operation.compareVersions_eq_null_iff, parse?_eq_none_iff, parse?_eq_none_iff]

/-- A mark, two numbers, a pre-release and build metadata. -/
example : parse? " v1.2-rc.1+b-7 " = some ⟨1, 2, 0, [.word ['r', 'c'], .number 1]⟩ := by decide +kernel

end Version

end FeatureFlags
