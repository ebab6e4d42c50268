import Mathlib.Logic.Basic
import FeatureFlags.Sync.Message
import FeatureFlags.Proofs.Collections.KeyMap
import FeatureFlags.Proofs.Sync.Wire

/-!
# Proofs/Sync/Struct — structured values read back from their bytes

A struct, a list, an entry and a value are messages inside each other, and only so many may be open
at a time.  `nesting` counts them without a reader.  A value whose structs are ordered by their names
is read back from its bytes where its nesting is within the depth, and not read at all where it is
not (`isReadBack`, `mergeFields_fieldBytes`).
-/

namespace FeatureFlags

open Wire

namespace Message

/-- The fields of a text under a number. -/
def textFields (number : Nat) (s : String) : List Field :=
  if s.isEmpty then [] else [.bytes number (ofText s)]

theorem spells_textField {number : Nat} {s : String} (hpos : 0 < number)
    (hbound : number < 2 ^ 29) (hsize : (textField number s).length < 2 ^ 64) :
    Spells (textFields number s) (textField number s) := by
  rw [textFields, textField] at *
  split
  case isTrue => exact .nil
  case isFalse hs =>
    rw [if_neg hs] at hsize
    exact spells_bytes hpos hbound (Nat.lt_of_le_of_lt (length_le_bytes number _) hsize)

/-- A text that is left out is the one that was there before. -/
theorem foldlM_textFields {α : Type} {step : α → Field → Option α} {m : α} {number : Nat}
    (set : String → α) (hset : ∀ s, step m (.bytes number (ofText s)) = some (set s))
    (hempty : set "" = m) (s : String) :
    (textFields number s).foldlM step m = some (set s) := by
  rw [textFields]
  split
  case isTrue hs =>
    rw [String.isEmpty_iff.mp hs, hempty]
    rfl
  case isFalse => simp [hset]

end Message

open Message

namespace StructValue

/-! ## How deep a value is nested -/

def isUnset : StructValue → Bool
  | unset => true
  | _ => false

mutual

/-- **How many messages are open inside a value** where it is deepest. -/
def nesting : StructValue → Nat
  | struct fields => fieldsNesting fields + 1
  | list items => itemsNesting items + 1
  | _ => 0

/-- An entry is a message, and so is its value, unless it is left out. -/
def fieldsNesting : List (String × StructValue) → Nat
  | [] => 0
  | (_, v) :: rest => max ((if v.isUnset then 0 else v.nesting + 1) + 1) (fieldsNesting rest)

def itemsNesting : List StructValue → Nat
  | [] => 0
  | v :: rest => max (v.nesting + 1) (itemsNesting rest)

end

def entryNesting (v : StructValue) : Nat := if v.isUnset then 0 else v.nesting + 1

theorem fieldsNesting_cons (key : String) (v : StructValue) (rest : List (String × StructValue)) :
    fieldsNesting ((key, v) :: rest) = max (v.entryNesting + 1) (fieldsNesting rest) := rfl

mutual

/-- **Every struct in a value is a map**: its names ascend. -/
def IsOrdered : StructValue → Prop
  | struct fields => Ascending fields ∧ FieldsOrdered fields
  | list items => ItemsOrdered items
  | _ => True

/-- So it is in the values of all fields. -/
def FieldsOrdered : List (String × StructValue) → Prop
  | [] => True
  | (_, v) :: rest => v.IsOrdered ∧ FieldsOrdered rest

def ItemsOrdered : List StructValue → Prop
  | [] => True
  | v :: rest => v.IsOrdered ∧ ItemsOrdered rest

end

/-- **A value is read back from its bytes** where its nesting is within the depth, and only there.
-/
def IsReadBack (v : StructValue) : Prop :=
  ∀ depth, mergeValue depth unset v.bytes = if v.nesting ≤ depth then some v else none

/-! ## Entries -/

def entryBytes (key : String) (v : StructValue) : List UInt8 :=
  textField 1 key ++ if v.isUnset then [] else Piece.bytes ⟨2, .bytes v.bytes⟩

theorem fieldBytes_cons (key : String) (v : StructValue) (rest : List (String × StructValue)) :
    fieldBytes ((key, v) :: rest) =
      Piece.bytes ⟨1, .bytes (entryBytes key v)⟩ ++ fieldBytes rest := by
  cases v <;> rfl

/-- The fields of an entry, as `entryBytes` writes them. -/
def entryFields (key : String) (v : StructValue) : List Field :=
  textFields 1 key ++ if v.isUnset then [] else [.bytes 2 v.bytes]

theorem spells_entryBytes {key : String} {v : StructValue}
    (hsize : (entryBytes key v).length < 2 ^ 64) :
    Spells (entryFields key v) (entryBytes key v) := by
  rw [entryBytes, List.length_append] at hsize
  refine (spells_textField (by decide) (by decide) (by omega)).append ?_
  split at hsize
  case isTrue hv => simpa only [if_pos hv] using Spells.nil
  case isFalse hv =>
    have := length_le_bytes 2 v.bytes
    simpa only [if_neg hv] using spells_bytes (by decide) (by decide) (by omega)

/-- An entry is read back where its value is. -/
theorem IsReadBack.mergeEntry {key : String} {v : StructValue} (hv : v.IsReadBack)
    (hsize : (entryBytes key v).length < 2 ^ 64) (depth : Nat) :
    mergeEntry depth (entryBytes key v) = if v.entryNesting ≤ depth then some (key, v) else none := by
  have hkey (r) : (textFields 1 key).foldlM (entryStep depth r) ("", unset) = some (key, unset) :=
    foldlM_textFields (fun s => (s, unset)) (fun s => by simp [entryStep, text?_ofText]) rfl key
  cases depth with
  | zero =>
    rw [StructValue.mergeEntry, fields?_of_spells (spells_entryBytes hsize)]
    simp only [Option.bind_eq_bind, Option.bind_some, entryFields, List.foldlM_append, hkey]
    cases v <;> simp [entryNesting, isUnset, entryStep]
  | succ depth =>
    rw [StructValue.mergeEntry, fields?_of_spells (spells_entryBytes hsize)]
    simp only [Option.bind_eq_bind, Option.bind_some, entryFields, List.foldlM_append, hkey]
    rw [entryNesting]
    split
    case isTrue hunset => cases v <;> simp_all [isUnset]
    case isFalse hunset => simp [entryStep, hv depth]

theorem length_bytes_le_entryBytes (key : String) (v : StructValue) :
    v.bytes.length ≤ (entryBytes key v).length := by
  have := length_le_bytes 2 v.bytes
  rw [entryBytes, List.length_append]
  split
  case isTrue hv => cases v <;> simp_all [isUnset, bytes] -- what is left out has no bytes
  case isFalse hv => omega

/-! ## Structs and lists, one by one -/

theorem spells_fieldBytes {fields : List (String × StructValue)}
    (hsize : (fieldBytes fields).length < 2 ^ 64) :
    Spells (fields.map fun e => .bytes 1 (entryBytes e.1 e.2)) (fieldBytes fields) := by
  induction fields with
  | nil => exact .nil
  | cons e rest ih =>
    obtain ⟨key, v⟩ := e
    have := length_le_bytes 1 (entryBytes key v)
    rw [fieldBytes_cons, List.length_append] at hsize
    have hentry : (entryBytes key v).length < 2 ^ 64 := by omega
    rw [fieldBytes_cons]
    exact (spells_bytes (by decide) (by decide) hentry).append (ih (by omega))

theorem spells_itemBytes {items : List StructValue} (hsize : (itemBytes items).length < 2 ^ 64) :
    Spells (items.map fun v => .bytes 1 v.bytes) (itemBytes items) := by
  induction items with
  | nil => exact .nil
  | cons v rest ih =>
    have := length_le_bytes 1 v.bytes
    rw [itemBytes, List.length_append] at hsize
    rw [itemBytes]
    exact (spells_bytes (by decide) (by decide) (by omega)).append (ih (by omega))

theorem IsReadBack.mergeFields {key : String} {v : StructValue}
    {rest before : List (String × StructValue)} (hv : v.IsReadBack)
    (hsize : (fieldBytes ((key, v) :: rest)).length < 2 ^ 64)
    (hbefore : ∀ e ∈ before, e.1 < key) (depth : Nat) :
    mergeFields depth before (fieldBytes ((key, v) :: rest)) =
      if v.entryNesting + 1 ≤ depth then
        mergeFields depth (before ++ [(key, v)]) (fieldBytes rest)
      else none := by
  have hspells := spells_fieldBytes hsize
  rw [fieldBytes_cons, List.length_append] at hsize
  have hlength := length_le_bytes 1 (entryBytes key v)
  have hrest : Spells _ (fieldBytes rest) := spells_fieldBytes (by omega)
  have hentry := @hv.mergeEntry key _ (by omega)
  cases depth with
  | zero =>
    rw [StructValue.mergeFields, fields?_of_spells hspells]
    simp [fieldsStep]
  | succ depth =>
    rw [StructValue.mergeFields, StructValue.mergeFields, fields?_of_spells hspells, fields?_of_spells hrest]
    simp only [Option.bind_eq_bind, Option.bind_some, List.map_cons, List.foldlM_cons, fieldsStep,
      hentry, Nat.add_le_add_iff_right]
    split <;> simp [insertEntry_of_forall_lt hbefore]

theorem IsReadBack.mergeItems {v : StructValue} {rest : List StructValue} (hv : v.IsReadBack)
    (hsize : (itemBytes (v :: rest)).length < 2 ^ 64) (before : List StructValue) (depth : Nat) :
    mergeItems depth before (itemBytes (v :: rest)) =
      if v.nesting + 1 ≤ depth then mergeItems depth (before ++ [v]) (itemBytes rest)
      else none := by
  have hspells := spells_itemBytes hsize
  rw [itemBytes, List.length_append] at hsize
  have hrest : Spells _ (itemBytes rest) := spells_itemBytes (by omega)
  cases depth with
  | zero =>
    rw [StructValue.mergeItems, fields?_of_spells hspells]
    simp [itemsStep]
  | succ depth =>
    rw [StructValue.mergeItems, StructValue.mergeItems, fields?_of_spells hspells, fields?_of_spells hrest]
    simp only [Option.bind_eq_bind, Option.bind_some, List.map_cons, List.foldlM_cons, itemsStep,
      hv depth, Nat.add_le_add_iff_right]
    split <;> simp

/-! ## Values -/

/-- The field of a value, as `bytes` writes it. -/
def fields : StructValue → List Field
  | unset => []
  | nullNumber i => [.varint 1 (ofEnumeration i)]
  | number x => [.fixed64 2 x.bits.toNat]
  | text s => [.bytes 3 (ofText s)]
  | boolean b => [.varint 4 (if b then 1 else 0)]
  | struct fields => [.bytes 5 (fieldBytes fields)]
  | list items => [.bytes 6 (itemBytes items)]

theorem spells_value {v : StructValue} (hsize : v.bytes.length < 2 ^ 64) :
    Spells v.fields v.bytes := by
  cases v with
  | unset => exact .nil
  | nullNumber i =>
    have hi : (Content.varint (ofEnumeration i)).Fits := ofEnumeration_lt i
    exact (spellsPiece_bytes (by decide) (by decide) hi).spells rfl
  | number x =>
    have hx : (Content.fixed64 x.bits.toNat).Fits := x.bits.toNat_lt
    exact (spellsPiece_bytes (by decide) (by decide) hx).spells rfl
  | text s =>
    rw [bytes] at hsize
    exact spells_bytes (by decide) (by decide) (Nat.lt_of_le_of_lt (length_le_bytes 3 _) hsize)
  | boolean b =>
    have hb : (Content.varint (if b then 1 else 0)).Fits := by cases b <;> simp [Content.Fits]
    exact (spellsPiece_bytes (by decide) (by decide) hb).spells rfl
  | struct fields =>
    rw [bytes] at hsize
    exact spells_bytes (by decide) (by decide) (Nat.lt_of_le_of_lt (length_le_bytes 5 _) hsize)
  | list items =>
    rw [bytes] at hsize
    exact spells_bytes (by decide) (by decide) (Nat.lt_of_le_of_lt (length_le_bytes 6 _) hsize)

mutual

-- along the value: each message that is opened inside it takes one from the depth, and one from
-- the nesting; the rows of a struct and of a list keep the depth and go on behind what was read
/-- **Values are read back.** -/
theorem isReadBack : ∀ v : StructValue, v.IsOrdered → v.bytes.length < 2 ^ 64 → v.IsReadBack
  | struct fields, ⟨hascending, hfields⟩, hsize, depth => by
    have hread := mergeFields_fieldBytes fields hfields
      (Nat.lt_of_le_of_lt (length_le_bytes 5 _) hsize) [] hascending
    cases depth <;>
      simp [mergeValue, fields?_of_spells (spells_value hsize), StructValue.fields, valueStep,
        fieldsOf, nesting, hread]
  | list items, hitems, hsize, depth => by
    have hread := mergeItems_itemBytes items hitems
      (Nat.lt_of_le_of_lt (length_le_bytes 6 _) hsize) []
    cases depth <;>
      simp [mergeValue, fields?_of_spells (spells_value hsize), StructValue.fields, valueStep,
        itemsOf, nesting, hread]
  | unset, _, hsize, depth => by
    cases depth <;> simp [mergeValue, fields?_of_spells (spells_value hsize), fields, nesting]
  | nullNumber i, _, hsize, depth => by
    cases depth <;>
      simp [mergeValue, fields?_of_spells (spells_value hsize), fields, valueStep, nesting,
        enumeration_ofEnumeration]
  | number x, _, hsize, depth => by
    cases depth <;>
      simp [mergeValue, fields?_of_spells (spells_value hsize), fields, valueStep, nesting]
  | text s, _, hsize, depth => by
    cases depth <;>
      simp [mergeValue, fields?_of_spells (spells_value hsize), fields, valueStep, nesting,
        text?_ofText]
  | boolean b, _, hsize, depth => by
    cases depth <;> cases b <;>
      simp [mergeValue, fields?_of_spells (spells_value hsize), fields, valueStep, nesting]

/-- The fields of a struct are put behind those read before, whose names come first. -/
theorem mergeFields_fieldBytes : ∀ fields : List (String × StructValue), FieldsOrdered fields →
    (fieldBytes fields).length < 2 ^ 64 → ∀ before, Ascending (before ++ fields) → ∀ depth,
    mergeFields depth before (fieldBytes fields) =
      if fieldsNesting fields ≤ depth then some (before ++ fields) else none
  | [], _, _, before, _, depth => by
    cases depth <;> simp [mergeFields, fieldBytes, fields?_of_spells .nil, fieldsNesting]
  | (key, v) :: rest, ⟨hvalue, hrest⟩, hsize, before, hascending, depth => by
    have hsizes := hsize
    rw [fieldBytes_cons, List.length_append] at hsizes
    have hentry := length_le_bytes 1 (entryBytes key v)
    have hbytes := length_bytes_le_entryBytes key v
    have hbefore : ∀ e ∈ before, e.1 < key := fun e he =>
      (List.pairwise_append.mp hascending).2.2 e he (key, v) List.mem_cons_self
    have hnext : Ascending (before ++ [(key, v)] ++ rest) := by
      rwa [List.append_assoc, List.singleton_append]
    rw [(isReadBack v hvalue (by omega)).mergeFields hsize hbefore,
      mergeFields_fieldBytes rest hrest (by omega) _ hnext depth, fieldsNesting_cons]
    simp only [Nat.max_le, ite_and, List.append_assoc, List.singleton_append]

theorem mergeItems_itemBytes : ∀ items : List StructValue, ItemsOrdered items →
    (itemBytes items).length < 2 ^ 64 → ∀ before depth,
    mergeItems depth before (itemBytes items) =
      if itemsNesting items ≤ depth then some (before ++ items) else none
  | [], _, _, before, depth => by
    cases depth <;> simp [mergeItems, itemBytes, fields?_of_spells .nil, itemsNesting]
  | v :: rest, ⟨hvalue, hrest⟩, hsize, before, depth => by
    have hsizes := hsize
    rw [itemBytes, List.length_append] at hsizes
    have hitem := length_le_bytes 1 v.bytes
    rw [(isReadBack v hvalue (by omega)).mergeItems hsize,
      mergeItems_itemBytes rest hrest (by omega) _ depth, itemsNesting]
    simp only [Nat.max_le, ite_and, List.append_assoc, List.singleton_append]

end

end StructValue

end FeatureFlags
