import Mathlib.Data.List.Forall2

/-!
# Proofs/Collections/Results — results that may be missing

Two steps give a result when both do (`bind_eq_ok_iff`), and so does a row of them
(`mapM_eq_ok_iff`, `mapM_eq_some_iff`); otherwise it gives the first fault (`mapM_eq_error_iff`).  A fault
that none of the steps gives they do not give together (`mapM_ne_error`), and steps that do the same for
what they get may stand for each other (`bind_congr_of_ok`).
-/

namespace FeatureFlags

variable {ε α β : Type}

/-- **Two steps give a result** when the first gives one with which the second does. -/
theorem bind_eq_ok_iff {x : Except ε α} {f : α → Except ε β} {b : β} :
    x >>= f = .ok b ↔ ∃ a, x = .ok a ∧ f a = .ok b := by
  constructor
  · intro h
    cases x with
    | ok a => exact ⟨a, rfl, h⟩
    | error e => cases h
  · rintro ⟨a, rfl, h⟩
    exact h

/-- **Two steps have a fault** when the first has it, or the second with what the first gives. -/
theorem bind_eq_error_iff {x : Except ε α} {f : α → Except ε β} {e : ε} :
    x >>= f = .error e ↔ x = .error e ∨ ∃ a, x = .ok a ∧ f a = .error e := by
  constructor
  · intro h
    cases x with
    | ok a => exact .inr ⟨a, rfl, h⟩
    | error => exact .inl (congrArg Except.error (Except.error.inj h))
  · rintro (rfl | ⟨a, rfl, h⟩)
    · rfl
    · exact h

theorem eq_ok_of_toOption {x : Except ε α} {a : α} (h : x.toOption = some a) : x = .ok a := by
  cases x with
  | ok b => exact congrArg Except.ok (Option.some.inj h)
  | error e => cases h

/-- **A row of steps gives a row of results**, each its own … -/
theorem mapM_eq_ok_iff {f : α → Except ε β} {as : List α} {bs : List β} :
    as.mapM f = .ok bs ↔ List.Forall₂ (fun a b => f a = .ok b) as bs := by
  induction as generalizing bs with
  | nil =>
    rw [List.mapM_nil, List.forall₂_nil_left_iff]
    exact ⟨fun h => (Except.ok.inj h).symm, fun h => h ▸ rfl⟩
  | cons a rest ih =>
    simp only [List.mapM_cons, bind_eq_ok_iff, ih, List.forall₂_cons_left_iff]
    constructor
    · rintro ⟨b, hb, more, hmore, h⟩
      exact ⟨b, more, hb, hmore, (Except.ok.inj h).symm⟩
    · rintro ⟨b, more, hb, hmore, rfl⟩
      exact ⟨b, hb, more, hmore, rfl⟩

/-- What a row of steps gives, one of them gave. -/
theorem exists_of_mem_mapM {f : α → Except ε β} {as : List α} {bs : List β}
    (h : as.mapM f = .ok bs) {b : β} (hb : b ∈ bs) : ∃ a ∈ as, f a = .ok b := by
  induction mapM_eq_ok_iff.mp h with
  | nil => cases hb
  | cons hstep _ ih =>
    obtain rfl | hb := List.mem_cons.mp hb
    · exact ⟨_, List.mem_cons_self, hstep⟩
    · obtain ⟨a, ha, hgives⟩ := ih (mapM_eq_ok_iff.mpr ‹_›) hb
      exact ⟨a, List.mem_cons_of_mem _ ha, hgives⟩

/-- … or the fault of the first step that has one. -/
theorem mapM_eq_error_iff {f : α → Except ε β} {as : List α} {e : ε} :
    as.mapM f = .error e ↔ ∃ before a after, as = before ++ a :: after ∧
      (∀ b ∈ before, ∃ v, f b = .ok v) ∧ f a = .error e := by
  constructor
  · intro h
    induction as with
    | nil => cases h
    | cons a rest ih =>
      rw [List.mapM_cons, bind_eq_error_iff] at h
      obtain ha | ⟨b, hb, h⟩ := h
      · exact ⟨[], a, rest, rfl, by simp, ha⟩
      · obtain hrest | ⟨more, -, h⟩ := bind_eq_error_iff.mp h
        · obtain ⟨before, next, after, rfl, hbefore, hnext⟩ := ih hrest
          exact ⟨a :: before, next, after, rfl, List.forall_mem_cons.mpr ⟨⟨b, hb⟩, hbefore⟩, hnext⟩
        · cases h
  · rintro ⟨before, a, after, rfl, hbefore, ha⟩
    induction before with
    | nil => exact List.mapM_cons.trans (bind_eq_error_iff.mpr (.inl ha))
    | cons b before ih =>
      obtain ⟨⟨v, hv⟩, hrest⟩ := List.forall_mem_cons.mp hbefore
      exact List.mapM_cons.trans (bind_eq_error_iff.mpr (.inr ⟨v, hv, bind_eq_error_iff.mpr (.inl (ih hrest))⟩))

/-! ## Faults -/

theorem bind_ne_error {e : ε} {x : Except ε α} {k : α → Except ε β}
    (hx : x ≠ .error e) (hk : ∀ a, k a ≠ .error e) : x >>= k ≠ .error e := by
  cases x with
  | ok a => exact hk a
  | error => exact fun h => hx (congrArg Except.error (Except.error.inj h))

theorem mapM_ne_error {e : ε} {k : α → Except ε β} (h : ∀ a, k a ≠ .error e)
    (as : List α) : as.mapM k ≠ .error e := by
  induction as with
  | nil => exact nofun
  | cons a as ih =>
    rw [List.mapM_cons]
    exact bind_ne_error (h a) fun _ => bind_ne_error ih fun _ => nofun

/-! ## Steps that do the same -/

/-- Only what is given matters to what follows. -/
theorem bind_congr_of_ok {x : Except ε α} {f g : α → Except ε β} (h : ∀ a, x = .ok a → f a = g a) :
    x >>= f = x >>= g := by
  cases x with
  | error e => rfl
  | ok a => exact h a rfl

theorem mapM_congr {f g : α → Except ε β} {items : List α} (h : ∀ a ∈ items, f a = g a) :
    items.mapM f = items.mapM g := by
  induction items with
  | nil => rfl
  | cons a rest ih =>
    obtain ⟨ha, hrest⟩ := List.forall_mem_cons.mp h
    rw [List.mapM_cons, List.mapM_cons, ha, ih hrest]

theorem filterM_congr {f g : α → Except ε Bool} {items : List α} (h : ∀ a ∈ items, f a = g a) :
    items.filterM f = items.filterM g := by
  rw [List.filterM, List.filterM]
  congr 1
  generalize ([] : List α) = done
  induction items generalizing done with
  | nil => rfl
  | cons a rest ih =>
    obtain ⟨ha, hrest⟩ := List.forall_mem_cons.mp h
    rw [List.filterAuxM, List.filterAuxM, ha]
    congr 1
    funext keep
    exact ih hrest _

/-! ## Results that may be absent -/

/-- **A row of steps gives a row of results**, each its own. -/
theorem mapM_eq_some_iff {f : α → Option β} {as : List α} {bs : List β} :
    as.mapM f = some bs ↔ List.Forall₂ (fun a b => f a = some b) as bs := by
  induction as generalizing bs with
  | nil => cases bs <;> simp
  | cons a rest ih =>
    simp only [List.mapM_cons, bind, pure, Option.bind_eq_some_iff, Option.some.injEq,
      List.forall₂_cons_left_iff, ih]
    constructor
    · rintro ⟨b, hb, more, hmore, rfl⟩
      exact ⟨b, more, hb, hmore, rfl⟩
    · rintro ⟨b, more, hb, hmore, rfl⟩
      exact ⟨b, hb, more, hmore, rfl⟩

/-- Steps that give what a function gives, on the items that have a property. -/
theorem mapM_eq_some_map_iff {f : α → Option β} {ok : α → Prop} {g : α → β}
    (h : ∀ a b, f a = some b ↔ ok a ∧ g a = b) {as : List α} {bs : List β} :
    as.mapM f = some bs ↔ (∀ a ∈ as, ok a) ∧ as.map g = bs := by
  simp only [mapM_eq_some_iff, h]
  induction as generalizing bs with
  | nil => simp [eq_comm]
  | cons a rest ih =>
    simp only [List.forall₂_cons_left_iff, ih, List.forall_mem_cons, List.map_cons]
    constructor
    · rintro ⟨b, more, ⟨ha, rfl⟩, ⟨hrest, rfl⟩, rfl⟩
      exact ⟨⟨ha, hrest⟩, rfl⟩
    · rintro ⟨⟨ha, hrest⟩, rfl⟩
      exact ⟨_, _, ⟨ha, rfl⟩, ⟨hrest, rfl⟩, rfl⟩

end FeatureFlags
