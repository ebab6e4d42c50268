/-!
# Collections/KeyMap — maps from text keys, kept in the order of their keys

A `KeyMap` is a list of entries with strictly ascending keys, so two maps with the same entries are
the same map and a map is read out in the order of its keys: by code point, which is also the order
of the UTF-8 bytes.  `insertEntry` and `valueAt?` are the operations on bare lists of entries; the
members of a JSON object are such a list too.
-/

namespace FeatureFlags

universe u v

variable {α : Type u} {β : Type v}

/-! ## Lists of entries -/

/-- The keys ascend strictly. -/
def Ascending (entries : List (String × α)) : Prop := entries.Pairwise (·.1 < ·.1)

/-- **Sets a key**, replacing an entry it already has. -/
def insertEntry (key : String) (value : α) : List (String × α) → List (String × α)
  | [] => [(key, value)]
  | (k, v) :: rest =>
    if key < k then (key, value) :: (k, v) :: rest
    else if k < key then (k, v) :: insertEntry key value rest
    else (key, value) :: rest

/-- **Reads a key.** -/
def valueAt? (key : String) : List (String × α) → Option α
  | [] => none
  | (k, v) :: rest => if k = key then some v else valueAt? key rest

theorem eq_of_not_lt {a b : String} (h : ¬ a < b) (h' : ¬ b < a) : a = b :=
  String.le_antisymm (String.not_lt.mp h') (String.not_lt.mp h)

theorem mem_insertEntry {key : String} {value : α} {entries : List (String × α)}
    {e : String × α} (h : e ∈ insertEntry key value entries) : e = (key, value) ∨ e ∈ entries := by
  induction entries with
  | nil => simpa [insertEntry] using h
  | cons head rest ih =>
    obtain ⟨k, v⟩ := head
    simp only [insertEntry] at h
    split at h
    · simpa using h
    · split at h
      · rcases List.mem_cons.mp h with rfl | h
        · simp
        · rcases ih h with h | h <;> simp [h]
      · rcases List.mem_cons.mp h with h | h <;> simp [h]

theorem ascending_insertEntry (key : String) (value : α) {entries : List (String × α)}
    (h : Ascending entries) : Ascending (insertEntry key value entries) := by
  induction entries with
  | nil => simp [insertEntry, Ascending]
  | cons head rest ih =>
    obtain ⟨k, v⟩ := head
    obtain ⟨hhead, hrest⟩ := List.pairwise_cons.mp h
    simp only [insertEntry]
    split
    · rename_i hlt
      refine List.pairwise_cons.mpr ⟨fun e he => ?_, h⟩
      rcases List.mem_cons.mp he with rfl | he
      · exact hlt
      · exact String.lt_trans hlt (hhead e he)
    · split
      · rename_i hlt
        refine List.pairwise_cons.mpr ⟨fun e he => ?_, ih hrest⟩
        rcases mem_insertEntry he with rfl | he
        · exact hlt
        · exact hhead e he
      · rename_i h₁ h₂
        have : key = k := eq_of_not_lt h₁ h₂
        subst this
        exact List.pairwise_cons.mpr ⟨hhead, hrest⟩

/-- **Reading back a set key.** -/
theorem valueAt?_insertEntry (key other : String) (value : α) (entries : List (String × α)) :
    valueAt? other (insertEntry key value entries) =
      if key = other then some value else valueAt? other entries := by
  induction entries with
  | nil => rfl
  | cons head rest ih =>
    obtain ⟨k, v⟩ := head
    simp only [insertEntry]
    split
    · simp [valueAt?]
    · split
      · rename_i hlt
        have hne : key ≠ k := fun h => String.lt_irrefl _ (h ▸ hlt)
        simp only [valueAt?, ih]
        by_cases hk : k = other
        · subst hk
          simp [hne]
        · simp [hk]
      · rename_i h₁ h₂
        have : key = k := eq_of_not_lt h₁ h₂
        subst this
        simp only [valueAt?]
        split <;> simp_all

theorem ascending_filter {entries : List (String × α)} (p : String × α → Bool)
    (h : Ascending entries) : Ascending (entries.filter p) :=
  List.Pairwise.sublist List.filter_sublist h

theorem ascending_filterMap {entries : List (String × α)} (f : String → α → Option β)
    (h : Ascending entries) :
    Ascending (entries.filterMap fun e => (f e.1 e.2).map (e.1, ·)) := by
  refine List.Pairwise.filterMap _ (fun a b hab c hc d hd => ?_) h
  obtain ⟨x, -, rfl⟩ := Option.map_eq_some_iff.mp hc
  obtain ⟨y, -, rfl⟩ := Option.map_eq_some_iff.mp hd
  exact hab

/-! ## The map -/

/-- **A map from text keys**, its entries in the order of their keys. -/
structure KeyMap (α : Type u) where
  entries : List (String × α)
  ascending : Ascending entries

namespace KeyMap

theorem ext {m n : KeyMap α} (h : m.entries = n.entries) : m = n := by
  obtain ⟨_, _⟩ := m; obtain ⟨_, _⟩ := n; simpa using h

def empty : KeyMap α := ⟨[], List.Pairwise.nil⟩

instance : EmptyCollection (KeyMap α) := ⟨empty⟩

instance : Inhabited (KeyMap α) := ⟨empty⟩

def insert (m : KeyMap α) (key : String) (value : α) : KeyMap α :=
  ⟨insertEntry key value m.entries, ascending_insertEntry key value m.ascending⟩

def get? (m : KeyMap α) (key : String) : Option α := valueAt? key m.entries

def contains (m : KeyMap α) (key : String) : Bool := (m.get? key).isSome

def keys (m : KeyMap α) : List String := m.entries.map (·.1)

def size (m : KeyMap α) : Nat := m.entries.length

def isEmpty (m : KeyMap α) : Bool := m.entries.isEmpty

/-- The map of a list of entries; of two entries with one key the later stands. -/
def ofList (entries : List (String × α)) : KeyMap α :=
  entries.foldl (fun m e => m.insert e.1 e.2) ∅

/-- Both maps' entries; where both have a key, the one of `upper` stands. -/
def overlay (m upper : KeyMap α) : KeyMap α :=
  upper.entries.foldl (fun acc e => acc.insert e.1 e.2) m

/-- The entries that satisfy a test. -/
def filter (m : KeyMap α) (p : String → α → Bool) : KeyMap α :=
  ⟨m.entries.filter fun e => p e.1 e.2, ascending_filter _ m.ascending⟩

/-- The entries that have an image under `f`, with it. -/
def filterMap (m : KeyMap α) (f : String → α → Option β) : KeyMap β :=
  ⟨_, ascending_filterMap f m.ascending⟩

instance [BEq α] : BEq (KeyMap α) := ⟨fun m n => m.entries == n.entries⟩

@[simp] theorem get?_empty (key : String) : (∅ : KeyMap α).get? key = none := rfl

@[simp] theorem get?_insert (m : KeyMap α) (key other : String) (value : α) :
    (m.insert key value).get? other = if key = other then some value else m.get? other :=
  valueAt?_insertEntry key other value m.entries

end KeyMap

end FeatureFlags
