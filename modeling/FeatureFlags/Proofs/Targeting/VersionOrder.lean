import FeatureFlags.Proofs.Targeting.Versions

/-!
# Proofs/Targeting/VersionOrder — comparisons are the precedence of versions

`Version.Precedes` is the precedence of Semantic Versioning, rule by rule.  `Version.compare` decides it
(`Version.compare_eq_lt_iff`) and is a lawful order, being put together lexicographically from those
of its parts.  `Version.Respelled` are the changes to a text that leave its version as it is.

`Operation.ComparesByPrecedence` states the laws of the answers to comparisons, and
`Operation.compareVersions_comparesByPrecedence` has them for all texts that are read.
-/

namespace FeatureFlags

namespace Identifier

/-! ## Precedence -/

/-- **Numbers by their size, below words; words by their characters.** -/
inductive Precedes : Identifier → Identifier → Prop
  | numbers {m n : Nat} (h : m < n) : Precedes (.number m) (.number n)
  | numberWord (n : Nat) (letters : List Char) : Precedes (.number n) (.word letters)
  | words {as bs : List Char} (h : List.Lex (· < ·) as bs) : Precedes (.word as) (.word bs)

theorem compare_eq_lt_iff {i j : Identifier} : i.compare j = .lt ↔ i.Precedes j := by
  constructor
  · intro h
    cases i with
    | number m =>
      cases j with
      | number n => exact .numbers (Nat.compare_eq_lt.mp h)
      | word bs => exact .numberWord m bs
    | word as =>
      cases j with
      | number n => cases h
      | word bs =>
        have hlt : String.ofList as < String.ofList bs := compareOfLessAndEq_eq_lt.mp h
        rw [String.lt_iff, String.toList_ofList, String.toList_ofList] at hlt
        exact .words hlt
  · rintro (h | ⟨n, letters⟩ | h)
    · exact Nat.compare_eq_lt.mpr h
    · rfl
    · refine compareOfLessAndEq_eq_lt.mpr ?_
      rw [String.lt_iff, String.toList_ofList, String.toList_ofList]
      exact h

instance : Std.LawfulEqCmp compare where
  compare_self {i} := by
    cases i with
    | number n => exact Std.ReflOrd.compare_self
    | word letters => exact Std.ReflOrd.compare_self
  eq_of_compare {i j} h := by
    cases i with
    | number m =>
      cases j with
      | number n => exact congrArg number (Std.LawfulEqOrd.eq_of_compare h)
      | word bs => cases h
    | word as =>
      cases j with
      | number n => cases h
      | word bs => exact congrArg word (String.ofList_injective (Std.LawfulEqOrd.eq_of_compare h))

instance : Std.TransCmp compare where
  eq_swap {i j} := by
    cases i <;> cases j <;> first | rfl | exact Std.OrientedOrd.eq_swap
  isLE_trans {i j k} hij hjk := by
    cases i <;> cases j <;> cases k <;>
      first
        | exact Std.TransOrd.isLE_trans hij hjk
        | rfl
        | exact absurd hij Bool.false_ne_true
        | exact absurd hjk Bool.false_ne_true

theorem compareLists_eq_compareLex (is js : List Identifier) :
    compareLists is js = List.compareLex compare is js := by
  induction is generalizing js with
  | nil => cases js <;> simp [compareLists, List.compareLex_nil_nil, List.compareLex_nil_cons]
  | cons i is ih =>
    cases js with
    | nil => simp [compareLists, List.compareLex_cons_nil]
    | cons j js => rw [compareLists, ih, List.compareLex_cons_cons]

theorem compareLists_eq_lt_iff {is js : List Identifier} :
    compareLists is js = .lt ↔ List.Lex Precedes is js := by
  induction is generalizing js with
  | nil => cases js <;> simp [compareLists]
  | cons i is ih =>
    cases js with
    | nil => simp [compareLists]
    | cons j js =>
      rw [compareLists, Ordering.then_eq_lt, compare_eq_lt_iff, ih,
        Std.LawfulEqCmp.compare_eq_iff_eq, List.cons_lex_cons_iff]

end Identifier

namespace Version

/-- **Pre-releases are below their release**, and ordered identifier by identifier, each beginning
below the whole. -/
inductive PreReleasePrecedes : List Identifier → List Identifier → Prop
  | release (i : Identifier) (is : List Identifier) : PreReleasePrecedes (i :: is) []
  | identifiers {is js : List Identifier} (hne : is ≠ []) (h : List.Lex Identifier.Precedes is js) :
      PreReleasePrecedes is js

/-- **The precedence of versions**: the first difference decides. -/
inductive Precedes (a b : Version) : Prop
  | major (h : a.major < b.major)
  | minor (hmajor : a.major = b.major) (h : a.minor < b.minor)
  | patch (hmajor : a.major = b.major) (hminor : a.minor = b.minor) (h : a.patch < b.patch)
  | preRelease (hmajor : a.major = b.major) (hminor : a.minor = b.minor)
      (hpatch : a.patch = b.patch) (h : PreReleasePrecedes a.preRelease b.preRelease)

theorem comparePreReleases_eq_lt_iff {is js : List Identifier} :
    comparePreReleases is js = .lt ↔ PreReleasePrecedes is js := by
  cases is with
  | nil =>
    constructor
    · intro h
      cases js <;> cases h
    · rintro (_ | ⟨hne, -⟩)
      exact absurd rfl hne
  | cons i is =>
    cases js with
    | nil => exact ⟨fun _ => .release i is, fun _ => rfl⟩
    | cons j js =>
      rw [comparePreReleases, Identifier.compareLists_eq_lt_iff]
      · refine ⟨.identifiers (List.cons_ne_nil i is), fun h => ?_⟩
        cases h with
        | identifiers _ h => exact h
      all_goals simp

theorem compare_eq_lt_iff {a b : Version} : a.compare b = .lt ↔ a.Precedes b := by
  simp only [compare, Ordering.then_eq_lt, Nat.compare_eq_lt, Nat.compare_eq_eq,
    comparePreReleases_eq_lt_iff]
  constructor
  · rintro (h | ⟨hmajor, h | ⟨hminor, h | ⟨hpatch, h⟩⟩⟩)
    · exact .major h
    · exact .minor hmajor h
    · exact .patch hmajor hminor h
    · exact .preRelease hmajor hminor hpatch h
  · rintro (h | ⟨hmajor, h⟩ | ⟨hmajor, hminor, h⟩ | ⟨hmajor, hminor, hpatch, h⟩)
    · exact .inl h
    · exact .inr ⟨hmajor, .inl h⟩
    · exact .inr ⟨hmajor, .inr ⟨hminor, .inl h⟩⟩
    · exact .inr ⟨hmajor, .inr ⟨hminor, .inr ⟨hpatch, h⟩⟩⟩

/-- Pre-releases come before releases, and then it is their identifiers that are compared. -/
theorem comparePreReleases_eq_compareLex :
    comparePreReleases =
      compareLex (compareOn List.isEmpty) (List.compareLex Identifier.compare) := by
  funext is js
  cases is with
  | nil =>
    cases js with
    | nil => simp [comparePreReleases, compareLex, compareOn, List.compareLex_nil_nil]
    | cons j js => rfl
  | cons i is =>
    cases js with
    | nil => rfl
    | cons j js => exact Identifier.compareLists_eq_compareLex (i :: is) (j :: js)

instance : Std.TransCmp comparePreReleases :=
  comparePreReleases_eq_compareLex ▸ inferInstance

instance : Std.LawfulEqCmp comparePreReleases where
  compare_self := Std.ReflCmp.compare_self
  eq_of_compare {is js} h := by
    rw [comparePreReleases_eq_compareLex, compareLex, Ordering.then_eq_eq] at h
    exact Std.LawfulEqCmp.eq_of_compare h.2

theorem compare_eq_compareLex :
    compare = compareLex (compareOn major) (compareLex (compareOn minor)
      (compareLex (compareOn patch) fun a b => comparePreReleases a.preRelease b.preRelease)) :=
  rfl

instance : Std.TransCmp compare := by
  have : Std.TransCmp fun a b : Version => comparePreReleases a.preRelease b.preRelease :=
    { eq_swap := Std.OrientedCmp.eq_swap, isLE_trans := Std.TransCmp.isLE_trans }
  rw [compare_eq_compareLex]
  infer_instance

instance : Std.LawfulEqCmp compare where
  compare_self := Std.ReflCmp.compare_self
  eq_of_compare {a b} h := by
    simp only [compare, Ordering.then_eq_eq, Std.LawfulEqCmp.compare_eq_iff_eq] at h
    obtain ⟨hmajor, hminor, hpatch, hpre⟩ := h
    cases a
    cases b
    simp_all

theorem compare_eq_gt_iff {a b : Version} : a.compare b = .gt ↔ b.Precedes a :=
  Std.OrientedCmp.gt_iff_lt.trans compare_eq_lt_iff

theorem compare_eq_eq_iff {a b : Version} : a.compare b = .eq ↔ a = b :=
  Std.LawfulEqCmp.compare_eq_iff_eq

theorem Precedes.trans {a b c : Version} (hab : a.Precedes b) (hbc : b.Precedes c) : a.Precedes c :=
  compare_eq_lt_iff.mp
    (Std.TransCmp.lt_trans (compare_eq_lt_iff.mpr hab) (compare_eq_lt_iff.mpr hbc))

/-! ## Spellings of one version -/

/-- **A text is respelled**, and its version is not touched: build metadata is added, altered or left
out, a mark or blanks are put around the version, or the first number that is left out is written. -/
inductive Respelled : Spelling → Spelling → Prop
  | build (s : Spelling) {build : Option (List (List Char))}
      (h : ∀ ids ∈ build, ids ≠ [] ∧ ∀ cs ∈ ids, IsIdentifier cs) : Respelled s { s with build }
  | mark (s : Spelling) {mark : Char} (hnone : s.mark = none) (h : mark = 'v' ∨ mark = 'V') :
      Respelled s { s with mark := some mark }
  | blanks (s : Spelling) {before after : List Char}
      (hbefore : ∀ c ∈ before, Blank.isBlank c = true)
      (hafter : ∀ c ∈ after, Blank.isBlank c = true) :
      Respelled s { s with before := before ++ s.before, after := s.after ++ after }
  | zero (s : Spelling) (h : s.numbers.length < 3) :
      Respelled s { s with numbers := s.numbers ++ [['0']] }

namespace Respelled

variable {s s' : Spelling}

theorem wellFormed (h : Respelled s s') (hs : s.WellFormed) : s'.WellFormed := by
  cases h with
  | build h => exact { hs with build := h }
  | mark _ h =>
    refine { hs with mark := fun c hc => ?_ }
    obtain rfl := Option.some.inj hc
    exact h
  | blanks hbefore hafter =>
    exact { hs with
      before := fun c hc => (List.mem_append.mp hc).elim (hbefore c) (hs.before c)
      after := fun c hc => (List.mem_append.mp hc).elim (hs.after c) (hafter c) }
  | zero h =>
    refine { hs with
      numbers_ne_nil := List.append_ne_nil_of_right_ne_nil _ (List.cons_ne_nil _ _)
      numbers_length_le := by rw [List.length_append]; exact h
      numbers := fun cs hcs => ?_ }
    rcases List.mem_append.mp hcs with hcs | hcs
    · exact hs.numbers cs hcs
    · obtain rfl := List.mem_singleton.mp hcs
      exact isNumber_zero

theorem version (h : Respelled s s') : s'.version = s.version := by
  cases h with
  | build h => rfl
  | mark _ _ => rfl
  | blanks _ _ => rfl
  | zero _ => exact version_append_zeros s.toParts 1

/-- **A respelled text is read as the same version.** -/
theorem parse? (h : Respelled s s') (hs : s.WellFormed) :
    Version.parse? (String.ofList s'.text) = Version.parse? (String.ofList s.text) := by
  have hread {t : Spelling} (ht : t.WellFormed) :
      Version.parse? (String.ofList t.text) = some t.version :=
    parse?_eq_some_iff.mpr ⟨t, ht, String.toList_ofList.symm, rfl⟩
  rw [hread hs, hread (h.wellFormed hs), h.version]

end Respelled

end Version

/-! ## Relations -/

namespace VersionRelation

/-- **What a relation says.** -/
def Relates : VersionRelation → Version → Version → Prop
  | equal, a, b => a = b
  | unequal, a, b => a ≠ b
  | less, a, b => a.Precedes b
  | atMost, a, b => a.Precedes b ∨ a = b
  | greater, a, b => b.Precedes a
  | atLeast, a, b => b.Precedes a ∨ a = b
  | sameMajor, a, b => a.major = b.major
  | sameMinor, a, b => a.major = b.major ∧ a.minor = b.minor

theorem holds_iff {r : VersionRelation} {a b : Version} : r.holds a b = true ↔ r.Relates a b := by
  cases r with
  | equal => exact beq_iff_eq.trans Version.compare_eq_eq_iff
  | unequal => exact bne_iff_ne.trans (not_congr Version.compare_eq_eq_iff)
  | less => exact beq_iff_eq.trans Version.compare_eq_lt_iff
  | atMost =>
    rw [holds, Relates, ← Version.compare_eq_lt_iff, ← Version.compare_eq_eq_iff]
    cases a.compare b <;> decide
  | greater => exact beq_iff_eq.trans Version.compare_eq_gt_iff
  | atLeast =>
    rw [holds, Relates, ← Version.compare_eq_gt_iff, ← Version.compare_eq_eq_iff]
    cases a.compare b <;> decide
  | sameMajor => exact beq_iff_eq
  | sameMinor => exact (Bool.and_eq_true _ _ ▸ and_congr beq_iff_eq beq_iff_eq)

end VersionRelation

namespace Operation

/-- **The operation affirms** that the versions are so related, whatever the data. -/
def Affirms (op : Operation) (left relation right : String) : Prop :=
  ∀ data, op [.str left, .str relation, .str right] data = .ok (.bool true)

/-- **The operation denies** it. -/
def Denies (op : Operation) (left relation right : String) : Prop :=
  ∀ data, op [.str left, .str relation, .str right] data = .ok (.bool false)

/-- **The operation compares versions by precedence.** -/
structure ComparesByPrecedence (op : Operation) : Prop where
  /-- Of two texts that are read, each relation is affirmed or denied, … -/
  answers {a b : String} {u v : Version} (ha : Version.parse? a = some u)
    (hb : Version.parse? b = some v) :
    ∀ relation ∈ ["=", "!=", "<", "<=", ">", ">=", "^", "~"],
      op.Affirms a relation b ∨ op.Denies a relation b
  /-- … exactly one of these three is affirmed, … -/
  trichotomy {a b : String} {u v : Version} (ha : Version.parse? a = some u)
    (hb : Version.parse? b = some v) :
    ∃! relation, relation ∈ ["<", "=", ">"] ∧ op.Affirms a relation b
  /-- … by the precedence of the versions, … -/
  precedence {a b : String} {u v : Version} (ha : Version.parse? a = some u)
    (hb : Version.parse? b = some v) :
    (op.Affirms a "<" b ↔ u.Precedes v) ∧ (op.Affirms a "=" b ↔ u = v) ∧
      (op.Affirms a ">" b ↔ v.Precedes u)
  /-- … and three more combine them. -/
  combinations {a b : String} {u v : Version} (ha : Version.parse? a = some u)
    (hb : Version.parse? b = some v) :
    (op.Affirms a "<=" b ↔ op.Affirms a "<" b ∨ op.Affirms a "=" b) ∧
      (op.Affirms a ">=" b ↔ op.Affirms a ">" b ∨ op.Affirms a "=" b) ∧
      (op.Affirms a "!=" b ↔ ¬ op.Affirms a "=" b)
  /-- The order is transitive, … -/
  less_trans {a b c : String} (hab : op.Affirms a "<" b) (hbc : op.Affirms b "<" c) : op.Affirms a "<" c
  /-- … and equal versions stand at one place in it. -/
  less_congr {a b c : String} (hab : op.Affirms a "=" b) :
    (op.Affirms a "<" c ↔ op.Affirms b "<" c) ∧ (op.Affirms c "<" a ↔ op.Affirms c "<" b)
  /-- Equal versions have the same minor number, … -/
  sameMinor_of_equal {a b : String} (h : op.Affirms a "=" b) : op.Affirms a "~" b
  /-- … versions with the same minor number have the same major one, … -/
  sameMajor_of_sameMinor {a b : String} (h : op.Affirms a "~" b) : op.Affirms a "^" b
  /-- … and each of these is an equivalence of the texts that are read. -/
  equivalence : ∀ relation ∈ ["=", "~", "^"],
    Equivalence fun a b : { text // (Version.parse? text).isSome } => op.Affirms a.1 relation b.1
  /-- No answer changes when a version is respelled, on either side. -/
  respelled {s s' : Version.Spelling} (hs : s.WellFormed) (h : Version.Respelled s s')
    (relation other data : Json) :
    op [.str (String.ofList s'.text), relation, other] data =
        op [.str (String.ofList s.text), relation, other] data ∧
      op [other, relation, .str (String.ofList s'.text)] data =
        op [other, relation, .str (String.ofList s.text)] data

section Compare

variable {left relation right : String} {u v : Version}

/-- **What is affirmed** is what the relation says of the versions. -/
theorem affirms_iff (r : VersionRelation) (hu : Version.parse? left = some u)
    (hr : VersionRelation.ofText? relation = some r) (hv : Version.parse? right = some v) :
    Affirms compareVersions left relation right ↔ r.Relates u v := by
  simp only [Affirms, compareVersions_of_parse? hu hr hv, Except.ok.injEq, Json.bool.injEq,
    VersionRelation.holds_iff, forall_const]

/-- Something is affirmed of versions only. -/
theorem exists_of_affirms (h : Affirms compareVersions left relation right) :
    (∃ u, Version.parse? left = some u) ∧ ∃ v, Version.parse? right = some v := by
  have hanswer : ¬ compareVersions [.str left, .str relation, .str right] .null = .ok .null := by
    rw [h .null]
    exact nofun
  rw [compareVersions_eq_null_iff, not_or, not_or] at hanswer
  exact ⟨Option.ne_none_iff_exists'.mp hanswer.1, Option.ne_none_iff_exists'.mp hanswer.2.2⟩

section Laws

variable (r : VersionRelation) (hr : VersionRelation.ofText? relation = some r)
include hr

/-- What one relation of versions implies, it implies of their texts. -/
theorem affirms_of_affirms (r' : VersionRelation) {relation' : String}
    (hr' : VersionRelation.ofText? relation' = some r')
    (himp : ∀ u v, r.Relates u v → r'.Relates u v) (h : Affirms compareVersions left relation right) :
    Affirms compareVersions left relation' right := by
  obtain ⟨⟨u, hu⟩, v, hv⟩ := exists_of_affirms h
  exact (affirms_iff r' hu hr' hv).mpr (himp u v ((affirms_iff r hu hr hv).mp h))

theorem affirms_trans {middle : String}
    (htrans : ∀ u v w, r.Relates u v → r.Relates v w → r.Relates u w)
    (h : Affirms compareVersions left relation middle)
    (h' : Affirms compareVersions middle relation right) : Affirms compareVersions left relation right := by
  obtain ⟨⟨u, hu⟩, v, hv⟩ := exists_of_affirms h
  obtain ⟨-, w, hw⟩ := exists_of_affirms h'
  exact (affirms_iff r hu hr hw).mpr
    (htrans u v w ((affirms_iff r hu hr hv).mp h) ((affirms_iff r hv hr hw).mp h'))

/-- An equivalence of versions is one of the texts that are read. -/
theorem affirms_equivalence (h : Equivalence r.Relates) :
    Equivalence fun a b : { text // (Version.parse? text).isSome } =>
      Affirms compareVersions a.1 relation b.1 where
  refl a := by
    obtain ⟨u, hu⟩ := Option.isSome_iff_exists.mp a.2
    exact (affirms_iff r hu hr hu).mpr (h.refl u)
  symm {a b} hab := by
    obtain ⟨⟨u, hu⟩, v, hv⟩ := exists_of_affirms hab
    exact (affirms_iff r hv hr hu).mpr (h.symm ((affirms_iff r hu hr hv).mp hab))
  trans := affirms_trans r hr fun _ _ _ => h.trans

end Laws

/-- Texts that are read alike have the same answers. -/
theorem compareVersions_congr {text text' : String} (h : Version.parse? text' = Version.parse? text)
    (relation other data : Json) :
    compareVersions [.str text', relation, other] data =
        compareVersions [.str text, relation, other] data ∧
      compareVersions [other, relation, .str text'] data =
        compareVersions [other, relation, .str text] data := by
  cases relation <;> cases other <;> simp only [compareVersions, h, and_self]

/-- Equal versions are read alike. -/
theorem parse?_eq_of_affirms (h : Affirms compareVersions left "=" right) :
    Version.parse? left = Version.parse? right := by
  obtain ⟨⟨u, hu⟩, v, hv⟩ := exists_of_affirms h
  obtain rfl : u = v := (affirms_iff .equal hu rfl hv).mp h
  rw [hu, hv]

/-- **Exactly one** of below, equal and above is affirmed. -/
theorem existsUnique_affirms (hu : Version.parse? left = some u) (hv : Version.parse? right = some v) :
    ∃! relation, relation ∈ ["<", "=", ">"] ∧ Affirms compareVersions left relation right := by
  have hless : Affirms compareVersions left "<" right ↔ u.compare v = .lt :=
    (affirms_iff .less hu rfl hv).trans Version.compare_eq_lt_iff.symm
  have hequal : Affirms compareVersions left "=" right ↔ u.compare v = .eq :=
    (affirms_iff .equal hu rfl hv).trans Version.compare_eq_eq_iff.symm
  have hgreater : Affirms compareVersions left ">" right ↔ u.compare v = .gt :=
    (affirms_iff .greater hu rfl hv).trans Version.compare_eq_gt_iff.symm
  have hunique (sign : String) (haffirms : Affirms compareVersions left sign right)
      (hsign : sign ∈ ["<", "=", ">"]) (hother : ∀ other ∈ ["<", "=", ">"], other ≠ sign →
        ¬ Affirms compareVersions left other right) :
      ∃! relation, relation ∈ ["<", "=", ">"] ∧ Affirms compareVersions left relation right :=
    ⟨sign, ⟨hsign, haffirms⟩, fun other ⟨hmem, h⟩ => by_contra fun hne => hother other hmem hne h⟩
  cases hcompare : u.compare v with
  | lt =>
    refine hunique "<" (hless.mpr hcompare) (by simp) ?_
    simp [hequal, hgreater, hcompare]
  | eq =>
    refine hunique "=" (hequal.mpr hcompare) (by simp) ?_
    simp [hless, hgreater, hcompare]
  | gt =>
    refine hunique ">" (hgreater.mpr hcompare) (by simp) ?_
    simp [hless, hequal, hcompare]

/-- **Comparisons are the precedence of versions.** -/
theorem compareVersions_comparesByPrecedence : ComparesByPrecedence compareVersions where
  answers ha hb relation hrelation := by
    obtain ⟨r, hr⟩ : ∃ r, VersionRelation.ofText? relation = some r := by
      simp only [List.mem_cons, List.not_mem_nil, or_false] at hrelation
      obtain rfl | rfl | rfl | rfl | rfl | rfl | rfl | rfl := hrelation <;> exact ⟨_, rfl⟩
    cases hholds : r.holds _ _ with
    | true => exact .inl fun data => by rw [compareVersions_of_parse? ha hr hb, hholds]
    | false => exact .inr fun data => by rw [compareVersions_of_parse? ha hr hb, hholds]
  trichotomy := existsUnique_affirms
  precedence ha hb :=
    ⟨affirms_iff .less ha rfl hb, affirms_iff .equal ha rfl hb, affirms_iff .greater ha rfl hb⟩
  combinations ha hb :=
    ⟨(affirms_iff .atMost ha rfl hb).trans
        (or_congr (affirms_iff .less ha rfl hb).symm (affirms_iff .equal ha rfl hb).symm),
      (affirms_iff .atLeast ha rfl hb).trans
        (or_congr (affirms_iff .greater ha rfl hb).symm (affirms_iff .equal ha rfl hb).symm),
      (affirms_iff .unequal ha rfl hb).trans (not_congr (affirms_iff .equal ha rfl hb).symm)⟩
  less_trans := affirms_trans .less rfl fun _ _ _ => Version.Precedes.trans
  less_congr {a b c} hab := by
    have halike := compareVersions_congr (parse?_eq_of_affirms hab) (.str "<") (.str c)
    simp only [Affirms, halike, and_self]
  sameMinor_of_equal := affirms_of_affirms .equal rfl .sameMinor rfl fun u v h => by
    obtain rfl : u = v := h
    exact ⟨rfl, rfl⟩
  sameMajor_of_sameMinor := affirms_of_affirms .sameMinor rfl .sameMajor rfl fun _ _ h => h.1
  equivalence relation hrelation := by
    simp only [List.mem_cons, List.not_mem_nil, or_false] at hrelation
    obtain rfl | rfl | rfl := hrelation
    · exact affirms_equivalence .equal rfl ⟨fun _ => rfl, Eq.symm, Eq.trans⟩
    · exact affirms_equivalence .sameMinor rfl ⟨fun _ => ⟨rfl, rfl⟩, fun h => ⟨h.1.symm, h.2.symm⟩,
        fun h h' => ⟨h.1.trans h'.1, h.2.trans h'.2⟩⟩
    · exact affirms_equivalence .sameMajor rfl ⟨fun _ => rfl, Eq.symm, Eq.trans⟩
  respelled hs h := compareVersions_congr (h.parse? hs)

/-- A pre-release is below the release, however that is spelled, and so below whatever is above it; in
their numbers they are the same. -/
theorem compareVersions_comparesByPrecedence_release :
    Affirms compareVersions "1.0.0-rc.2" "<" " v1" ∧ ¬ Affirms compareVersions " v1" "=" "1.0.0-rc.2" ∧
      Affirms compareVersions "1.0.0-rc.2" "<" "1.1" ∧ Affirms compareVersions "1.0" "~" " v1" := by
  have hlaw := compareVersions_comparesByPrecedence
  have hrc : Version.parse? "1.0.0-rc.2" = some ⟨1, 0, 0, [.word ['r', 'c'], .number 2]⟩ := by
    decide +kernel
  have hrelease : Version.parse? " v1" = some ⟨1, 0, 0, []⟩ := by decide +kernel
  have hpadded : Version.parse? "1.0" = some ⟨1, 0, 0, []⟩ := by decide +kernel
  have hminor : Version.parse? "1.1" = some ⟨1, 1, 0, []⟩ := by decide +kernel
  have hbelow : Affirms compareVersions "1.0.0-rc.2" "<" " v1" :=
    (hlaw.precedence hrc hrelease).1.mpr (.preRelease rfl rfl rfl (.release _ _))
  have habove : Affirms compareVersions " v1" "<" "1.1" :=
    (hlaw.precedence hrelease hminor).1.mpr (.minor rfl (by decide))
  have hequal : Affirms compareVersions "1.0" "=" " v1" :=
    (hlaw.precedence hpadded hrelease).2.1.mpr rfl
  refine ⟨hbelow, ?_, hlaw.less_trans hbelow habove, hlaw.sameMinor_of_equal hequal⟩
  rw [(hlaw.precedence hrelease hrc).2.1]
  decide

end Compare

end Operation

end FeatureFlags
