import FeatureFlags.Proofs.Collections.KeyMap

/-!
# Proofs/Collections/Equality — lists and maps of values whose equality is partial

Equality of definitions is that of the numbers in them, where NaN is equal to nothing; so it is
symmetric and transitive, and no more than that.  Lists, entries and maps inherit these two laws
from their values.  The lemmas on lists ask for a law at the members of one list only, so that they
serve inductions over values that hold lists of values.
-/

namespace FeatureFlags

variable {α : Type} [BEq α]

/-! ## Lists -/

theorem beq_list_symm {as bs : List α} (hsymm : ∀ a ∈ as, ∀ b, (a == b) = true → (b == a) = true)
    (h : (as == bs) = true) : (bs == as) = true := by
  induction as generalizing bs with
  | nil => cases bs <;> simp_all
  | cons a as ih =>
    cases bs with
    | nil => simp at h
    | cons b bs =>
      rw [List.cons_beq_cons, Bool.and_eq_true] at h ⊢
      obtain ⟨ha, has⟩ := List.forall_mem_cons.mp hsymm
      exact ⟨ha b h.1, ih has h.2⟩

theorem beq_list_trans {as bs cs : List α}
    (htrans : ∀ a ∈ as, ∀ b c, (a == b) = true → (b == c) = true → (a == c) = true)
    (h : (as == bs) = true) (h' : (bs == cs) = true) : (as == cs) = true := by
  induction as generalizing bs cs with
  | nil =>
    obtain rfl : bs = [] := by cases bs <;> simp_all
    exact h'
  | cons a as ih =>
    rcases bs with - | ⟨b, bs⟩
    · simp at h
    · rcases cs with - | ⟨c, cs⟩
      · simp at h'
      · rw [List.cons_beq_cons, Bool.and_eq_true] at h h' ⊢
        obtain ⟨ha, has⟩ := List.forall_mem_cons.mp htrans
        exact ⟨ha b c h.1 h'.1, ih has h.2 h'.2⟩

theorem beq_list_self {as : List α} (h : ∀ a ∈ as, (a == a) = true) : (as == as) = true := by
  induction as with
  | nil => rfl
  | cons a as ih =>
    obtain ⟨ha, has⟩ := List.forall_mem_cons.mp h
    rw [List.cons_beq_cons, ha, ih has]
    rfl

instance partialEquivBEq_list [PartialEquivBEq α] : PartialEquivBEq (List α) where
  symm := beq_list_symm fun _ _ _ => BEq.symm
  trans := beq_list_trans fun _ _ _ _ => BEq.trans

/-! ## Entries and options -/

theorem beq_entry_iff {e f : String × α} : (e == f) = true ↔ e.1 = f.1 ∧ (e.2 == f.2) = true := by
  obtain ⟨k, v⟩ := e
  obtain ⟨l, w⟩ := f
  change (k == l && v == w) = true ↔ k = l ∧ (v == w) = true
  rw [Bool.and_eq_true, beq_iff_eq]

instance partialEquivBEq_entry [PartialEquivBEq α] : PartialEquivBEq (String × α) where
  symm h := by
    rw [beq_entry_iff] at h ⊢
    exact ⟨h.1.symm, BEq.symm h.2⟩
  trans h h' := by
    rw [beq_entry_iff] at h h' ⊢
    exact ⟨h.1.trans h'.1, BEq.trans h.2 h'.2⟩

instance partialEquivBEq_option [PartialEquivBEq α] : PartialEquivBEq (Option α) where
  symm {a b} h :=
    match a, b, h with
    | none, none, _ => rfl
    | some _, some _, h => BEq.symm (α := α) h
  trans {a b c} h h' :=
    match a, b, c, h, h' with
    | none, none, none, _, _ => rfl
    | some _, some _, some _, h, h' => BEq.trans (α := α) h h'

/-! ## Maps -/

theorem valueAt?_beq (key : String) {entries others : List (String × α)}
    (h : (entries == others) = true) : (valueAt? key entries == valueAt? key others) = true := by
  induction entries generalizing others with
  | nil => cases others <;> simp_all [valueAt?]
  | cons e rest ih =>
    rcases others with - | ⟨f, others⟩
    · simp at h
    · rw [List.cons_beq_cons, Bool.and_eq_true, beq_entry_iff] at h
      obtain ⟨⟨hkey, hvalue⟩, hrest⟩ := h
      rw [valueAt?, valueAt?, hkey]
      split
      · exact hvalue
      · exact ih hrest

/-- The lesser of two first keys stands in one list only, so lists that give equal values begin with
one key. -/
theorem firstKey_eq_of_valueAt? {e f : String × α} {rest others : List (String × α)}
    (hentries : Ascending (e :: rest)) (hothers : Ascending (f :: others))
    (h : ∀ key, (valueAt? key (e :: rest) == valueAt? key (f :: others)) = true) : e.1 = f.1 := by
  refine eq_of_not_lt (fun hlt => ?_) fun hlt => ?_
  · have heq := h e.1
    rw [hothers.valueAt?_of_lt hlt] at heq
    simp [valueAt?] at heq
  · have heq := h f.1
    rw [hentries.valueAt?_of_lt hlt] at heq
    simp [valueAt?] at heq

/-- **Ascending lists that give equal values are equal.** -/
theorem beq_entries_of_valueAt? {entries others : List (String × α)} (hentries : Ascending entries)
    (hothers : Ascending others)
    (h : ∀ key, (valueAt? key entries == valueAt? key others) = true) : (entries == others) = true := by
  induction entries generalizing others with
  | nil =>
    cases others with
    | nil => rfl
    | cons f others =>
      have hkey := h f.1
      simp [valueAt?] at hkey
  | cons e rest ih =>
    cases others with
    | nil =>
      have hkey := h e.1
      simp [valueAt?] at hkey
    | cons f others =>
      have hkey : e.1 = f.1 := firstKey_eq_of_valueAt? hentries hothers h
      have hvalue : (e.2 == f.2) = true := by
        have heq := h e.1
        rw [valueAt?, valueAt?, if_pos rfl, if_pos hkey.symm] at heq
        exact heq
      rw [List.cons_beq_cons, Bool.and_eq_true, beq_entry_iff]
      refine ⟨⟨hkey, hvalue⟩, ih hentries.of_cons hothers.of_cons fun key => ?_⟩
      by_cases hhead : e.1 = key
      · subst hhead
        rw [hentries.valueAt?_rest, hkey, hothers.valueAt?_rest]
        rfl
      · have heq := h key
        rw [valueAt?, valueAt?, if_neg hhead, if_neg (hkey ▸ hhead)] at heq
        exact heq

namespace KeyMap

/-- **Equal maps give equal values** … -/
theorem get?_beq {m n : KeyMap α} (h : (m == n) = true) (key : String) :
    (m.get? key == n.get? key) = true :=
  valueAt?_beq key h

/-- … **and only they do.** -/
theorem beq_iff {m n : KeyMap α} : (m == n) = true ↔ ∀ key, (m.get? key == n.get? key) = true :=
  ⟨get?_beq, beq_entries_of_valueAt? m.ascending n.ascending⟩

theorem beq_self {m : KeyMap α} (h : ∀ key v, m.get? key = some v → (v == v) = true) :
    (m == m) = true := by
  refine beq_iff.mpr fun key => ?_
  cases hv : m.get? key with
  | none => rfl
  | some v => exact h key v hv

instance [PartialEquivBEq α] : PartialEquivBEq (KeyMap α) where
  symm {m n} h := BEq.symm (a := m.entries) (b := n.entries) h
  trans {m n o} h h' := BEq.trans (a := m.entries) (b := n.entries) (c := o.entries) h h'

end KeyMap

end FeatureFlags
