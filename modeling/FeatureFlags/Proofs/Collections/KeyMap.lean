import FeatureFlags.Collections.KeyMap

/-!
# Proofs/Collections/KeyMap — reading the maps that are made from others

A map is known by what it gives for each key (`KeyMap.ext_get?`).  The lemmas `get?_…` read the maps
that the operations make: a filtered map, a mapped one, and an overlay, where the upper map wins.
-/

namespace FeatureFlags

universe u v

variable {α : Type u} {β : Type v}

/-! ## Lists of entries -/

theorem valueAt?_eq_none_of_forall_ne {key : String} {entries : List (String × α)}
    (h : ∀ e ∈ entries, e.1 ≠ key) : valueAt? key entries = none := by
  induction entries with
  | nil => rfl
  | cons head rest ih =>
    obtain ⟨k, v⟩ := head
    have hk : k ≠ key := h (k, v) List.mem_cons_self
    rw [valueAt?, if_neg hk, ih fun e he => h e (List.mem_cons_of_mem _ he)]

theorem mem_of_valueAt? {key : String} {value : α} {entries : List (String × α)}
    (h : valueAt? key entries = some value) : (key, value) ∈ entries := by
  induction entries with
  | nil => simp [valueAt?] at h
  | cons head rest ih =>
    obtain ⟨k, v⟩ := head
    rw [valueAt?] at h
    split at h
    · rename_i hk
      simp_all
    · exact List.mem_cons_of_mem _ (ih h)

theorem valueAt?_map (f : String → α → β) (key : String) (entries : List (String × α)) :
    valueAt? key (entries.map fun e => (e.1, f e.1 e.2)) = (valueAt? key entries).map (f key) := by
  induction entries with
  | nil => rfl
  | cons e rest ih =>
    rw [List.map_cons, valueAt?, valueAt?, ih]
    split
    · rename_i hkey
      rw [← hkey]
      rfl
    · rfl

theorem valueAt?_append (key : String) (entries others : List (String × α)) :
    valueAt? key (entries ++ others) = (valueAt? key entries).or (valueAt? key others) := by
  induction entries with
  | nil => rfl
  | cons e rest ih =>
    rw [List.cons_append, valueAt?, valueAt?, ih]
    split <;> rfl

instance : DecidablePred (Ascending (α := α)) := fun entries =>
  inferInstanceAs (Decidable (entries.Pairwise (·.1 < ·.1)))

/-- A key behind all others is put behind them. -/
theorem insertEntry_of_forall_lt {key : String} {value : α} {entries : List (String × α)}
    (h : ∀ e ∈ entries, e.1 < key) : insertEntry key value entries = entries ++ [(key, value)] := by
  induction entries with
  | nil => rfl
  | cons e rest ih =>
    obtain ⟨he, hrest⟩ := List.forall_mem_cons.mp h
    rw [insertEntry, if_neg fun hlt => String.lt_irrefl _ (String.lt_trans hlt he), if_pos he,
      ih hrest, List.cons_append]

/-- In an ascending list the head's key comes before all others. -/
theorem Ascending.valueAt?_rest {key : String} {value : α} {rest : List (String × α)}
    (h : Ascending ((key, value) :: rest)) : valueAt? key rest = none :=
  valueAt?_eq_none_of_forall_ne fun e he hk =>
    String.lt_irrefl _ (hk ▸ (List.pairwise_cons.mp h).1 e he)

/-- … and it has no key before that. -/
theorem Ascending.valueAt?_of_lt {key : String} {e : String × α} {rest : List (String × α)}
    (h : Ascending (e :: rest)) (hlt : key < e.1) : valueAt? key (e :: rest) = none := by
  refine valueAt?_eq_none_of_forall_ne (List.forall_mem_cons.mpr ⟨?_, ?_⟩)
  · exact fun heq => String.lt_irrefl _ (heq ▸ hlt)
  · exact fun f hf heq =>
      String.lt_irrefl _ (String.lt_trans hlt (heq ▸ (List.pairwise_cons.mp h).1 f hf))

/-- In an ascending list no key stands twice, so it is read alike from either end. -/
theorem Ascending.valueAt?_reverse {key : String} {entries : List (String × α)}
    (h : Ascending entries) : valueAt? key entries.reverse = valueAt? key entries := by
  induction entries with
  | nil => rfl
  | cons e rest ih =>
    rw [List.reverse_cons, valueAt?_append, ih (List.pairwise_cons.mp h).2]
    simp only [valueAt?]
    split
    · next hkey => rw [← hkey, h.valueAt?_rest, Option.none_or]
    · exact Option.or_none

/-- **An ascending list holds an entry exactly where it is read.** -/
theorem Ascending.mem_iff {key : String} {value : α} {entries : List (String × α)}
    (h : Ascending entries) : (key, value) ∈ entries ↔ valueAt? key entries = some value := by
  refine ⟨fun hmem => ?_, mem_of_valueAt?⟩
  induction entries with
  | nil => simp at hmem
  | cons head rest ih =>
    obtain ⟨k, v⟩ := head
    obtain ⟨hhead, hrest⟩ := List.pairwise_cons.mp h
    rcases List.mem_cons.mp hmem with heq | hmem
    · obtain ⟨rfl, rfl⟩ := Prod.mk.inj heq
      simp [valueAt?]
    · have hlt : k < key := hhead _ hmem
      have hne : k ≠ key := fun hk => String.lt_irrefl _ (hk ▸ hlt)
      rw [valueAt?, if_neg hne, ih hrest hmem]

theorem Ascending.nodup {entries : List (String × α)} (h : Ascending entries) : entries.Nodup := by
  refine List.Pairwise.imp (fun {a b} hab => ?_) h
  rintro rfl
  exact String.lt_irrefl _ hab

/-- An ascending list is determined by what is read from it. -/
theorem Ascending.ext {entries others : List (String × α)} (h : Ascending entries)
    (h' : Ascending others) (heq : ∀ key, valueAt? key entries = valueAt? key others) :
    entries = others := by
  have hmem : ∀ e, e ∈ entries ↔ e ∈ others := by
    rintro ⟨key, value⟩
    rw [h.mem_iff, h'.mem_iff, heq key]
  have hperm : entries.Perm others := (List.perm_ext_iff_of_nodup h.nodup h'.nodup).mpr hmem
  unfold Ascending at h h'
  exact hperm.eq_of_pairwise
    (fun a b _ _ hab hba => absurd (String.lt_trans hab hba) (String.lt_irrefl _)) h h'

/-- **Induction from the last key on**: what holds of an entry, if it holds of those behind it, holds
of all. -/
theorem Ascending.induction_from_last {p : String × α → Prop} {entries : List (String × α)}
    (h : Ascending entries)
    (step : ∀ e ∈ entries, (∀ later ∈ entries, e.1 < later.1 → p later) → p e) :
    ∀ e ∈ entries, p e := by
  induction entries with
  | nil =>
    intro e he
    cases he
  | cons head rest ih =>
    obtain ⟨hhead, hrest⟩ := List.pairwise_cons.mp h
    have hbehind : ∀ e ∈ rest, p e := by
      refine ih hrest ?_
      intro e he hlater
      refine step e (List.mem_cons_of_mem _ he) ?_
      intro later hmem hlt
      rcases List.mem_cons.mp hmem with rfl | hmem
      · exact absurd (String.lt_trans hlt (hhead e he)) (String.lt_irrefl _)
      · exact hlater later hmem hlt
    refine List.forall_mem_cons.mpr ⟨step head List.mem_cons_self ?_, hbehind⟩
    intro later hmem hlt
    rcases List.mem_cons.mp hmem with rfl | hmem
    · exact absurd hlt (String.lt_irrefl _)
    · exact hbehind later hmem

theorem valueAt?_filterMap (key : String) (f : String → α → Option β)
    {entries : List (String × α)} (h : Ascending entries) :
    valueAt? key (entries.filterMap fun e => (f e.1 e.2).map (e.1, ·)) =
      (valueAt? key entries).bind (f key) := by
  induction entries with
  | nil => rfl
  | cons head rest ih =>
    obtain ⟨k, v⟩ := head
    have hrest := ih (List.pairwise_cons.mp h).2
    by_cases hk : k = key
    · subst hk
      rw [h.valueAt?_rest] at hrest
      cases hf : f k v <;> simp_all [valueAt?]
    · cases hf : f k v <;> simp_all [valueAt?]

theorem valueAt?_filter (key : String) (p : String × α → Bool) {entries : List (String × α)}
    (h : Ascending entries) :
    valueAt? key (entries.filter p) = (valueAt? key entries).filter fun v => p (key, v) := by
  have hguard (e : String × α) :
      Option.guard p e = (Option.guard (fun v => p (e.1, v)) e.2).map (e.1, ·) := by
    simp only [Option.guard]
    split <;> rfl
  rw [← List.filterMap_eq_filter, funext hguard,
    valueAt?_filterMap key (fun k => Option.guard fun v => p (k, v)) h, Option.bind_guard]

/-! ## Maps -/

namespace KeyMap

variable {m n : KeyMap α}

/-- **Maps that give the same for every key are the same.** -/
theorem ext_get? (h : ∀ key, m.get? key = n.get? key) : m = n :=
  ext (m.ascending.ext n.ascending h)

@[simp] theorem get?_filter (m : KeyMap α) (p : String → α → Bool) (key : String) :
    (m.filter p).get? key = (m.get? key).filter (p key) :=
  valueAt?_filter key (fun e => p e.1 e.2) m.ascending

@[simp] theorem get?_filterMap (m : KeyMap α) (f : String → α → Option β) (key : String) :
    (m.filterMap f).get? key = (m.get? key).bind (f key) :=
  valueAt?_filterMap key f m.ascending

/-- Entries set one after another: the last one for a key stands. -/
theorem get?_foldl_insert (entries : List (String × α)) (m : KeyMap α) (key : String) :
    (entries.foldl (fun acc e => acc.insert e.1 e.2) m).get? key =
      (valueAt? key entries.reverse).or (m.get? key) := by
  induction entries generalizing m with
  | nil => rfl
  | cons e rest ih =>
    rw [List.foldl_cons, ih, get?_insert, List.reverse_cons, valueAt?_append, Option.or_assoc,
      valueAt?]
    split <;> rfl

theorem get?_ofList (entries : List (String × α)) (key : String) :
    (ofList entries).get? key = valueAt? key entries.reverse := by
  rw [ofList, get?_foldl_insert, get?_empty, Option.or_none]

/-- **In an overlay the upper map wins.** -/
@[simp] theorem get?_overlay (m upper : KeyMap α) (key : String) :
    (m.overlay upper).get? key = (upper.get? key).or (m.get? key) := by
  rw [overlay, get?_foldl_insert, upper.ascending.valueAt?_reverse, ← get?]

theorem overlay_assoc (m n o : KeyMap α) : (m.overlay n).overlay o = m.overlay (n.overlay o) := by
  refine ext_get? fun key => ?_
  rw [get?_overlay, get?_overlay, get?_overlay, get?_overlay, Option.or_assoc]

/-- The map of entries that ascend has these entries. -/
theorem entries_ofList {entries : List (String × α)} (h : Ascending entries) :
    (ofList entries).entries = entries :=
  (ofList entries).ascending.ext h fun key => by
    rw [← get?, get?_ofList, h.valueAt?_reverse]

theorem ofList_entries (m : KeyMap α) : ofList m.entries = m := ext (entries_ofList m.ascending)

/-- **A map of entries** holds none but them. -/
theorem mem_of_get?_ofList {entries : List (String × α)} {key : String} {value : α}
    (h : (ofList entries).get? key = some value) : (key, value) ∈ entries := by
  rw [get?_ofList] at h
  exact List.mem_reverse.mp (mem_of_valueAt? h)

/-- The map with other values under its keys. -/
def mapped (f : String → α → β) (m : KeyMap α) : KeyMap β := m.filterMap fun key v => some (f key v)

@[simp] theorem get?_mapped (f : String → α → β) (m : KeyMap α) (key : String) :
    (m.mapped f).get? key = (m.get? key).map (f key) := by
  rw [mapped, get?_filterMap]
  rcases m.get? key with - | v <;> rfl

theorem mapped_insert (f : String → α → β) (m : KeyMap α) (key : String) (value : α) :
    (m.insert key value).mapped f = (m.mapped f).insert key (f key value) := by
  refine ext_get? ?_
  intro other
  simp only [get?_mapped, get?_insert]
  split
  · rename_i h
    rw [h, Option.map_some]
  · rfl

/-- **The map of changed entries** is the changed map. -/
theorem ofList_mapped (f : String → α → β) (entries : List (String × α)) :
    ofList (entries.map fun e => (e.1, f e.1 e.2)) = (ofList entries).mapped f := by
  have hfold (m : KeyMap α) :
      (entries.map fun e => (e.1, f e.1 e.2)).foldl (fun m e => m.insert e.1 e.2) (m.mapped f) =
        (entries.foldl (fun m e => m.insert e.1 e.2) m).mapped f := by
    induction entries generalizing m with
    | nil => rfl
    | cons e rest ih =>
      rw [List.map_cons, List.foldl_cons, List.foldl_cons, ← mapped_insert, ih]
  exact hfold ∅

/-! ### Keys -/

theorem mem_keys {key : String} : key ∈ m.keys ↔ m.contains key = true := by
  rw [keys, List.mem_map, contains, Option.isSome_iff_exists]
  constructor
  · rintro ⟨⟨k, v⟩, hmem, rfl⟩
    exact ⟨v, m.ascending.mem_iff.mp hmem⟩
  · rintro ⟨v, hv⟩
    exact ⟨(key, v), m.ascending.mem_iff.mpr hv, rfl⟩

theorem pairwise_keys (m : KeyMap α) : m.keys.Pairwise (· < ·) := List.pairwise_map.mpr m.ascending

/-- **The keys are known by their order** and by which they are. -/
theorem eq_keys_iff {names : List String} :
    names = m.keys ↔ names.Pairwise (· < ·) ∧ ∀ key, key ∈ names ↔ m.contains key = true := by
  constructor
  · rintro rfl
    exact ⟨m.pairwise_keys, fun _ => mem_keys⟩
  · rintro ⟨hsorted, hmem⟩
    have hirrefl {a b : String} (h : a < b) : a ≠ b := fun heq => String.lt_irrefl _ (heq ▸ h)
    have hperm : names.Perm m.keys :=
      (List.perm_ext_iff_of_nodup (hsorted.imp hirrefl) (m.pairwise_keys.imp hirrefl)).mpr
        fun key => (hmem key).trans mem_keys.symm
    exact hperm.eq_of_pairwise
      (fun a b _ _ hab hba => absurd (String.lt_trans hab hba) (String.lt_irrefl _)) hsorted
      m.pairwise_keys

end KeyMap

end FeatureFlags
