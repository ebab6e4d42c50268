import FeatureFlags.Text.Blank
import Mathlib.Data.List.TakeWhile

/-!
# Proofs/Text/Cuts — texts are cut and put together again

A text that is cut where a test first fails (`span_append`), at a separator (`notMem_of_mem_splitOn`) or
at the blanks around it (`Blank.trim_append`) is put together again from what the cut leaves.
-/

namespace FeatureFlags

variable {α : Type}

/-- **A row is cut** where the test first fails. -/
theorem span_append {p : α → Bool} {as rest : List α} (h : ∀ a ∈ as, p a = true)
    (hrest : ∀ a ∈ rest.head?, p a = false) :
    (as ++ rest).takeWhile p = as ∧ (as ++ rest).dropWhile p = rest := by
  have hstop : rest.takeWhile p = [] ∧ rest.dropWhile p = rest := by
    cases rest with
    | nil => exact ⟨rfl, rfl⟩
    | cons a rest => simp [hrest a rfl]
  rw [List.takeWhile_append_of_pos h, List.dropWhile_append_of_pos h, hstop.1, hstop.2,
    List.append_nil]
  exact ⟨rfl, rfl⟩

/-! ## Separators -/

section Separators

variable {separator a : α} {parts : List (List α)}

/-- What stands in joined parts stands in one of them, the separator apart. -/
theorem mem_intercalate (hne : a ≠ separator) :
    a ∈ [separator].intercalate parts ↔ ∃ part ∈ parts, a ∈ part := by
  induction parts with
  | nil => simp [List.intercalate_nil]
  | cons part rest ih =>
    cases rest with
    | nil => simp [List.intercalate_singleton]
    | cons next rest =>
      rw [List.intercalate_cons_cons, List.mem_append, List.mem_append, ih, List.mem_singleton]
      simp only [hne, or_false, List.mem_cons, exists_eq_or_imp]

/-- **No separator is left** in the parts. -/
theorem notMem_of_mem_splitOn [DecidableEq α] {as part : List α} (h : part ∈ as.splitOn separator) :
    separator ∉ part := by
  induction as generalizing part with
  | nil =>
    obtain rfl := List.mem_singleton.mp h
    exact List.not_mem_nil
  | cons b rest ih =>
    rw [List.splitOn_cons_eq_if_modifyHead] at h
    split at h
    · rcases List.mem_cons.mp h with rfl | h
      · exact List.not_mem_nil
      · exact ih h
    · rename_i hb
      obtain ⟨first, more, hsplit⟩ := List.exists_cons_of_ne_nil (List.splitOn_ne_nil separator rest)
      rw [hsplit, List.modifyHead_cons] at h
      rw [hsplit] at ih
      rcases List.mem_cons.mp h with rfl | h
      · have hfirst := ih List.mem_cons_self
        simp only [List.mem_cons, not_or]
        exact ⟨fun heq => hb (beq_iff_eq.mpr heq.symm), hfirst⟩
      · exact ih (List.mem_cons_of_mem _ h)

/-- What stands in a part stands in the whole. -/
theorem mem_of_mem_splitOn [DecidableEq α] {as part : List α} (h : part ∈ as.splitOn separator)
    (ha : a ∈ part) : a ∈ as := by
  have hne : a ≠ separator := fun heq => notMem_of_mem_splitOn h (heq ▸ ha)
  have hwhole := (mem_intercalate hne).mpr ⟨part, h, ha⟩
  rwa [List.intercalate_splitOn] at hwhole

end Separators

/-! ## Blanks -/

namespace Blank

variable {before middle after : List Char}

/-- The visible characters of ASCII are no blanks. -/
theorem isBlank_eq_false {c : Char} (hlow : 0x21 ≤ c.toNat) (hhigh : c.toNat < 0x85) :
    isBlank c = false := by
  simp only [isBlank, Bool.or_eq_false_iff, Bool.and_eq_false_iff, decide_eq_false_iff_not,
    beq_eq_false_iff_ne]
  omega

/-- Letters and digits are no blanks. -/
theorem isBlank_of_isAlphanum {c : Char} (h : c.isAlphanum = true) : isBlank c = false := by
  have hbetween {first last : Char} (hc : first.val ≤ c.val ∧ c.val ≤ last.val)
      (hfirst : 0x21 ≤ first.toNat) (hlast : last.toNat < 0x85) : isBlank c = false :=
    isBlank_eq_false (Nat.le_trans hfirst hc.1) (Nat.lt_of_le_of_lt hc.2 hlast)
  rcases (Bool.or_eq_true _ _).mp h with halpha | hdigit
  · rcases (Bool.or_eq_true _ _).mp halpha with hupper | hlower
    · exact hbetween (of_decide_eq_true hupper) (by decide) (by decide)
    · have hlower := (Bool.and_eq_true _ _).mp hlower
      exact hbetween (hlower.imp of_decide_eq_true of_decide_eq_true) (by decide) (by decide)
  · have hdigit := (Bool.and_eq_true _ _).mp hdigit
    exact hbetween (hdigit.imp of_decide_eq_true of_decide_eq_true) (by decide) (by decide)

/-- **Blanks around a text are trimmed**, and nothing else if it has none. -/
theorem trim_append (hbefore : ∀ c ∈ before, isBlank c = true)
    (hmiddle : ∀ c ∈ middle, isBlank c = false) (hafter : ∀ c ∈ after, isBlank c = true) :
    trim (before ++ middle ++ after) = middle := by
  rw [trim, List.append_assoc, List.dropWhile_append_of_pos hbefore]
  cases middle with
  | nil =>
    rw [List.nil_append, List.dropWhile_eq_nil_iff.mpr hafter]
    rfl
  | cons c rest =>
    rw [List.cons_append, List.dropWhile_cons_of_neg (by simp [hmiddle c List.mem_cons_self]),
      ← List.cons_append, List.reverse_append,
      List.dropWhile_append_of_pos fun c hc => hafter c (List.mem_reverse.mp hc)]
    have hlast : ∀ d ∈ (c :: rest).reverse.head?, isBlank d = false := fun d hd =>
      hmiddle d (List.mem_reverse.mp (List.mem_of_mem_head? hd))
    have hstop := (@span_append _ isBlank [] _ (by simp) hlast).2
    rw [List.nil_append] at hstop
    rw [hstop, List.reverse_reverse]

/-- **A text is its trimmed text** between blanks. -/
theorem exists_trim (cs : List Char) :
    ∃ before after, cs = before ++ trim cs ++ after ∧ (∀ c ∈ before, isBlank c = true) ∧
      ∀ c ∈ after, isBlank c = true := by
  have hblank {ds : List Char} : ∀ c ∈ ds.takeWhile isBlank, isBlank c = true :=
    List.all_eq_true.mp (List.all_takeWhile ..)
  refine ⟨cs.takeWhile isBlank, ((cs.dropWhile isBlank).reverse.takeWhile isBlank).reverse, ?_,
    hblank, fun c hc => hblank c (List.mem_reverse.mp hc)⟩
  rw [trim, List.append_assoc, ← List.reverse_append, List.takeWhile_append_dropWhile,
    List.reverse_reverse, List.takeWhile_append_dropWhile]

end Blank

end FeatureFlags
