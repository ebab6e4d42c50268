import Mathlib.Data.List.Forall2
import FeatureFlags.Proofs.Sync.Struct

/-!
# Proofs/Sync/Message — messages read back from among fields they do not know

A newer peer may put fields between those of a message whose numbers the message does not use.
Reading gives the same message, whatever the fields hold, as long as no more messages and groups are
inside each other than a reader opens (`formats_readBack`); past that depth nothing is read.
-/

namespace FeatureFlags

open Wire

namespace Message

/-! ## Fields among those of a message -/

/-- **The parts of a message with unknown fields between them**, before them and behind them. -/
inductive Interspersed (known : List Nat) : List (List UInt8) → List Field → List UInt8 → Prop
  | nil : Interspersed known [] [] []
  | own {part bytes : List UInt8} {parts : List (List UInt8)} {unknown : List Field}
      (h : Interspersed known parts unknown bytes) :
      Interspersed known (part :: parts) unknown (part ++ bytes)
  | unknown {f : Field} {field bytes : List UInt8} {parts : List (List UInt8)}
      {unknown : List Field} (hnumber : f.number ∉ known) (hfield : Spells [f] field)
      (h : Interspersed known parts unknown bytes) :
      Interspersed known parts (f :: unknown) (field ++ bytes)

/-- A message is its own parts with nothing between them. -/
theorem interspersed_flatten (known : List Nat) (parts : List (List UInt8)) :
    Interspersed known parts [] parts.flatten := by
  induction parts with
  | nil => exact .nil
  | cons part parts ih => exact .own ih

/-- Whatever reads the parts of a message reads past the fields between them, unless one of these
is nested too deep. -/
theorem Interspersed.exists_fields {known : List Nat} {parts : List (List UInt8)}
    {unknown : List Field} {bytes : List UInt8} (h : Interspersed known parts unknown bytes)
    {own : List (List Field)} (hown : List.Forall₂ Spells own parts) :
    ∃ fs, Spells fs bytes ∧ ∀ {α : Type} (step : α → Field → Option α),
      (∀ m f, f.number ∉ known → step m f = StructValue.skip deepest f m) → ∀ m,
      fs.foldlM step m =
        if ∀ f ∈ unknown, f.height ≤ deepest then own.flatten.foldlM step m else none := by
  -- the fields read do not depend on the reader, so they are found before `step` is given
  induction h generalizing own with
  | nil =>
    cases hown
    exact ⟨[], .nil, fun step _ m => by simp⟩
  | @own part bytes parts unknown _ ih =>
    obtain _ | @⟨first, _, others, _, hfirst, hothers⟩ := hown
    obtain ⟨fs, hspells, hfold⟩ := ih hothers
    refine ⟨first ++ fs, hfirst.append hspells, fun step hstep m => ?_⟩
    simp only [List.foldlM_append, List.flatten_cons, hfold step hstep]
    split <;> simp
  | @unknown f field bytes parts unknown hnumber hfield _ ih =>
    obtain ⟨fs, hspells, hfold⟩ := ih hown
    refine ⟨[f] ++ fs, hfield.append hspells, fun step hstep m => ?_⟩
    simp only [List.singleton_append, List.foldlM_cons, hstep m f hnumber, StructValue.skip,
      hfold step hstep, List.forall_mem_cons]
    by_cases hf : f.height ≤ deepest <;> simp [hf]

/-! ## Kinds of messages -/

/-- **How messages of one kind are written and read**: the numbers they use, the parts they are
written in, and the struct that is in them, if one is. -/
structure Format (α : Type) where
  known : List Nat
  parts : α → List (List UInt8)
  bytes : α → List UInt8
  struct? : α → Option Struct
  ofBytes? : List UInt8 → Option α
  bytes_eq : ∀ m, bytes m = (parts m).flatten

namespace Format

variable {α : Type} (F : Format α)

/-- The struct in a message is itself a message, and what is inside it is not too deep. -/
def Opens (m : α) : Prop := ∀ s ∈ F.struct? m, StructValue.fieldsNesting s + 1 ≤ deepest

instance (m : α) : Decidable (F.Opens m) :=
  inferInstanceAs (Decidable (∀ s ∈ F.struct? m, StructValue.fieldsNesting s + 1 ≤ deepest))

/-- **Every message is read back, also from among unknown fields**, exactly if no more than
`deepest` messages and groups are inside each other anywhere.  Its structs are maps, so their names
ascend, and its length is one that 64 bits can tell. -/
def ReadsBack : Prop :=
  ∀ m, (∀ s ∈ F.struct? m, (StructValue.struct s).IsOrdered) → (F.bytes m).length < 2 ^ 64 →
    (F.ofBytes? (F.bytes m) = if F.Opens m then some m else none) ∧
    ∀ {unknown : List Field} {bytes : List UInt8},
      Interspersed F.known (F.parts m) unknown bytes →
      F.ofBytes? bytes =
        if F.Opens m ∧ ∀ f ∈ unknown, f.height ≤ deepest then some m else none

variable {F}

/-- A reader that goes field by field reads messages back if it skips what it does not know, and
reads the fields of a message as that message. -/
theorem readsBack_of (step : α → Field → Option α) (start : α)
    (hread : ∀ bytes, F.ofBytes? bytes = (fields? bytes).bind fun fs => fs.foldlM step start)
    (hskip : ∀ m f, f.number ∉ F.known → step m f = StructValue.skip deepest f m)
    (hown : ∀ m, (∀ s ∈ F.struct? m, (StructValue.struct s).IsOrdered) →
      (F.bytes m).length < 2 ^ 64 →
      ∃ own, List.Forall₂ Spells own (F.parts m) ∧
        own.flatten.foldlM step start = if F.Opens m then some m else none) :
    F.ReadsBack := by
  intro m hordered hsize
  obtain ⟨own, hspells, hfold⟩ := hown m hordered hsize
  have hamong {unknown : List Field} {bytes : List UInt8}
      (h : Interspersed F.known (F.parts m) unknown bytes) : F.ofBytes? bytes =
        if F.Opens m ∧ ∀ f ∈ unknown, f.height ≤ deepest then some m else none := by
    obtain ⟨fs, hfs, hfields⟩ := h.exists_fields hspells
    rw [hread, fields?_of_spells hfs, Option.bind_some, hfields step hskip, hfold]
    by_cases hopens : F.Opens m <;> simp [hopens]
  refine ⟨?_, hamong⟩
  rw [F.bytes_eq, hamong (interspersed_flatten F.known (F.parts m))]
  simp

end Format

/-! ## Structs in a message -/

/-- The fields of a struct under a number. -/
def structFields (number : Nat) : Option Struct → List Field
  | none => []
  | some s => [.bytes number (StructValue.fieldBytes s)]

theorem spells_structField {number : Nat} {s : Option Struct} (hpos : 0 < number)
    (hbound : number < 2 ^ 29) (hsize : (structField number s).length < 2 ^ 64) :
    Spells (structFields number s) (structField number s) := by
  cases s with
  | none => exact .nil
  | some s =>
    exact spells_bytes hpos hbound (Nat.lt_of_le_of_lt (length_le_bytes number _) hsize)

theorem foldlM_structFields {α : Type} {step : α → Field → Option α} {m : α} {number : Nat}
    (set : Option Struct → α)
    (hset : ∀ content, step m (.bytes number content) = (mergeStruct none content).map set)
    (hempty : set none = m) {s : Option Struct}
    (hordered : ∀ t ∈ s, (StructValue.struct t).IsOrdered)
    (hsize : (structField number s).length < 2 ^ 64) :
    (structFields number s).foldlM step m =
      if ∀ t ∈ s, StructValue.fieldsNesting t + 1 ≤ deepest then some (set s) else none := by
  cases s with
  | none => simp [structFields, hempty]
  | some s =>
    obtain ⟨hascending, hfields⟩ := hordered s rfl
    have hmerge := StructValue.mergeFields_fieldBytes s hfields
      (Nat.lt_of_le_of_lt (length_le_bytes number _) hsize) [] hascending (deepest - 1)
    have hdepth : StructValue.fieldsNesting s ≤ deepest - 1 ↔
        StructValue.fieldsNesting s + 1 ≤ deepest := by simp only [deepest]; omega
    rw [structFields, List.foldlM_cons, hset, mergeStruct, Option.getD_none, hmerge]
    simp only [hdepth, Option.mem_some_iff, forall_eq']
    split <;> rfl

end Message

open Message

/-! ## The messages -/

namespace SyncRequest

def format : Format SyncRequest where
  known := [1, 2]
  parts m := [textField 1 m.providerId, textField 2 m.selector]
  bytes := bytes
  struct? _ := none
  ofBytes? := ofBytes?
  bytes_eq m := by simp [bytes]

theorem readsBack : format.ReadsBack := by
  refine Format.readsBack_of step ⟨"", ""⟩ (fun _ => rfl) (fun m f hf => ?_) fun m _ hsize => ?_
  · have hnumber : ¬ (f.number = 1 ∨ f.number = 2) := by simpa [format] using hf
    unfold step
    split <;> simp_all [Field.number]
  · have hsizes : (textField 1 m.providerId).length + (textField 2 m.selector).length < 2 ^ 64 := by
      simpa [format, bytes] using hsize
    refine ⟨[textFields 1 m.providerId, textFields 2 m.selector],
      .cons (spells_textField (by decide) (by decide) (by omega))
        (.cons (spells_textField (by decide) (by decide) (by omega)) .nil), ?_⟩
    have hid : (textFields 1 m.providerId).foldlM step ⟨"", ""⟩ = some ⟨m.providerId, ""⟩ :=
      foldlM_textFields (SyncRequest.mk · "") (fun s => by simp [step, text?_ofText]) rfl _
    have hselector : (textFields 2 m.selector).foldlM step ⟨m.providerId, ""⟩ = some m :=
      foldlM_textFields (SyncRequest.mk m.providerId) (fun s => by simp [step, text?_ofText]) rfl _
    simp [List.foldlM_append, hid, hselector, Format.Opens, format]

end SyncRequest

namespace SyncResponse

def format : Format SyncResponse where
  known := [1, 2]
  parts m := [textField 1 m.configuration, structField 2 m.context]
  bytes := bytes
  struct? := context
  ofBytes? := ofBytes?
  bytes_eq m := by simp [bytes]

theorem readsBack : format.ReadsBack := by
  refine Format.readsBack_of step ⟨"", none⟩ (fun _ => rfl) (fun m f hf => ?_)
    fun m hordered hsize => ?_
  · have hnumber : ¬ (f.number = 1 ∨ f.number = 2) := by simpa [format] using hf
    unfold step
    split <;> simp_all [Field.number]
  · have hsizes :
        (textField 1 m.configuration).length + (structField 2 m.context).length < 2 ^ 64 := by
      simpa [format, bytes] using hsize
    refine ⟨[textFields 1 m.configuration, structFields 2 m.context],
      .cons (spells_textField (by decide) (by decide) (by omega))
        (.cons (spells_structField (by decide) (by decide) (by omega)) .nil), ?_⟩
    have htext : (textFields 1 m.configuration).foldlM step ⟨"", none⟩ =
        some ⟨m.configuration, none⟩ :=
      foldlM_textFields (SyncResponse.mk · none) (fun s => by simp [step, text?_ofText]) rfl _
    have hcontext : (structFields 2 m.context).foldlM step ⟨m.configuration, none⟩ =
        if format.Opens m then some m else none :=
      foldlM_structFields (SyncResponse.mk m.configuration) (fun _ => rfl) rfl hordered (by omega)
    simp [List.foldlM_append, htext, hcontext]

end SyncResponse

namespace MetadataRequest

def format : Format MetadataRequest where
  known := []
  parts _ := []
  bytes := bytes
  struct? _ := none
  ofBytes? := ofBytes?
  bytes_eq _ := rfl

theorem readsBack : format.ReadsBack :=
  Format.readsBack_of (fun m f => StructValue.skip deepest f m) ⟨⟩ (fun _ => rfl)
    (fun _ _ _ => rfl) fun _ _ _ => ⟨[], .nil, by simp [Format.Opens, format]⟩

end MetadataRequest

namespace MetadataResponse

def format : Format MetadataResponse where
  known := [2]
  parts m := [structField 2 m.metadata]
  bytes := bytes
  struct? := metadata
  ofBytes? := ofBytes?
  bytes_eq m := by simp [bytes]

theorem readsBack : format.ReadsBack := by
  refine Format.readsBack_of step ⟨none⟩ (fun _ => rfl) (fun m f hf => ?_)
    fun m hordered hsize => ?_
  · have hnumber : f.number ≠ 2 := by simpa [format] using hf
    unfold step
    split <;> simp_all [Field.number]
  · refine ⟨[structFields 2 m.metadata],
      .cons (spells_structField (by decide) (by decide) hsize) .nil, ?_⟩
    have hmetadata : (structFields 2 m.metadata).foldlM step ⟨none⟩ =
        if format.Opens m then some m else none :=
      foldlM_structFields MetadataResponse.mk (fun _ => rfl) rfl hordered hsize
    simpa using hmetadata

end MetadataResponse

/-- **Every message is read back from its bytes, also from among fields it does not know**, where
what is nested in it and in them is within the depth that a reader opens. -/
theorem Message.formats_readBack :
    SyncRequest.format.ReadsBack ∧ SyncResponse.format.ReadsBack ∧
      MetadataRequest.format.ReadsBack ∧ MetadataResponse.format.ReadsBack :=
  ⟨SyncRequest.readsBack, SyncResponse.readsBack, MetadataRequest.readsBack,
    MetadataResponse.readsBack⟩

/-- A configuration with a context comes through with two fields of a newer peer: a one that is
spelled in two bytes, and a group in a group. -/
theorem Message.readBack_among_two :
    SyncResponse.ofBytes? (textField 1 "{}" ++ ([0x18, 0x81, 0x00] ++
        (structField 2 (some [("a", .list [])]) ++ (nestedGroups 15 2 ++ [])))) =
      some ⟨"{}", some [("a", .list [])]⟩ := by
  have hkey : SpellsNumber 24 [0x18] := ⟨.last (by decide), by decide, by decide⟩
  have hone : SpellsNumber 1 [0x81, 0x00] :=
    ⟨@Groups.more 1 0 _ (by decide) (.last (by decide)), by decide, by decide⟩
  have hnumber : Spells [.varint 3 1] ([0x18] ++ [0x81, 0x00]) :=
    (SpellsPiece.intro (by decide) (by decide) hkey (.varint hone)).spells rfl
  have hgroups : Spells [.group 15 2] (nestedGroups 15 2) :=
    spells_nestedGroups (by decide) (by decide) 1
  have hamong : Interspersed [1, 2] [textField 1 "{}", structField 2 (some [("a", .list [])])]
      [.varint 3 1, .group 15 2] _ :=
    .own (.unknown (by decide) hnumber (.own (.unknown (by decide) hgroups .nil)))
  have hordered : ∀ s ∈ some [("a", StructValue.list [])], (StructValue.struct s).IsOrdered := by
    simp [StructValue.IsOrdered, StructValue.FieldsOrdered, StructValue.ItemsOrdered, Ascending]
  have hsize : (SyncResponse.bytes ⟨"{}", some [("a", .list [])]⟩).length < 2 ^ 64 := by
    simp [SyncResponse.bytes, textField, structField, ofText_eq, StructValue.fieldBytes,
      StructValue.bytes, StructValue.itemBytes, Piece.bytes, Content.kind]
    decide
  exact ((Message.formats_readBack.2.1 ⟨"{}", some [("a", .list [])]⟩ hordered hsize).2 hamong).trans
    (if_pos (by decide))

/-- A hundred and one groups inside each other are a field too, and nothing is read with it. -/
theorem Message.not_read_among_nested :
    Interspersed SyncResponse.format.known (SyncResponse.format.parts ⟨"{}", none⟩)
        [.group 15 101] (SyncResponse.bytes ⟨"{}", none⟩ ++ nestedGroups 15 101) ∧
      SyncResponse.ofBytes? (SyncResponse.bytes ⟨"{}", none⟩ ++ nestedGroups 15 101) = none := by
  have hgroups : Spells [.group 15 101] (nestedGroups 15 101) :=
    spells_nestedGroups (by decide) (by decide) 100
  have hamong : Interspersed SyncResponse.format.known (SyncResponse.format.parts ⟨"{}", none⟩)
      [.group 15 101] (SyncResponse.bytes ⟨"{}", none⟩ ++ nestedGroups 15 101) := by
    simpa [SyncResponse.format, SyncResponse.bytes] using
      Interspersed.own (.own (.unknown (by decide) hgroups .nil))
  have hsize : (SyncResponse.bytes ⟨"{}", none⟩).length < 2 ^ 64 := by
    simp [SyncResponse.bytes, textField, structField, ofText_eq, Piece.bytes, Content.kind]
    decide
  refine ⟨hamong, ?_⟩
  exact ((SyncResponse.readsBack ⟨"{}", none⟩ (by simp [SyncResponse.format]) hsize).2
    hamong).trans (if_neg (by decide))

end FeatureFlags
