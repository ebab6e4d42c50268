import FeatureFlags.Proofs.Collections.Results
import FeatureFlags.Proofs.Document.Decoding
import FeatureFlags.Proofs.Document.Shape

/-!
# Proofs/Document/Records — the values that flags are decoded from

`Flag.IsDocumented` is the record as it is described: an object with a state by name, and with a
default, variants, a rule and metadata that may be absent.  The decoder takes every such record, and
two more forms of one (`Flag.StandsFor`): the fields may stand in a list, in the order of
`Flag.fieldOrder`, and the state may be an object with null under its name.  It takes nothing else
(`Flag.decodes_iff`).
-/

namespace FeatureFlags

open Json

/-! ## The record -/

/-- **The value of a scalar.**  An integer beyond 64 signed bits stands for the nearest double. -/
inductive Scalar.StandsFor : Json → Scalar → Prop
  | boolean (b : Bool) : StandsFor (.bool b) (.boolean b)
  | integer {i : Int} (h : Number.isInt64 i = true) : StandsFor (.int i) (.integer i)
  | wide {i : Int} (h : Number.isInt64 i = false) : StandsFor (.int i) (.double (.ofInt i))
  | double (x : Binary64) : StandsFor (.num (.double x)) (.double x)
  | text (s : String) : StandsFor (.str s) (.text s)

namespace FlagState

/-- **The name of a state.** -/
inductive IsNamed : Json → FlagState → Prop
  | enabled : IsNamed (.str "ENABLED") .enabled
  | disabled : IsNamed (.str "DISABLED") .disabled

/-- **The value of a state**: its name, or an object with null under the name and nothing else. -/
inductive StandsFor : Json → FlagState → Prop
  | name {v : Json} {s : FlagState} (h : IsNamed v s) : StandsFor v s
  | key {name : String} {s : FlagState} (h : IsNamed (.str name) s) :
      StandsFor (.obj [(name, .null)]) s

end FlagState

namespace Flag

/-- The field of the default; without one the name is empty. -/
inductive HasDefault : Option Json → String → Prop
  | absent : HasDefault none ""
  | null : HasDefault (some .null) ""
  | name (s : String) : HasDefault (some (.str s)) s

/-- The field of the variants, an object. -/
inductive HasVariants : Option Json → KeyMap Json → Prop
  | absent : HasVariants none ∅
  | object (variants : KeyMap Json) : HasVariants (some (.ofMap variants)) variants

/-- The field of the rule: null and the empty object are no rule. -/
inductive HasRule : Option Json → Option Json → Prop
  | absent : HasRule none none
  | null : HasRule (some .null) none
  | empty : HasRule (some (.obj [])) none
  | rule {v : Json} (hnull : v ≠ .null) (hempty : v ≠ .obj []) : HasRule (some v) (some v)

/-- The field of the metadata, an object of scalars. -/
inductive HasMetadata : Option Json → Metadata → Prop
  | absent : HasMetadata none ∅
  | object {members : KeyMap Json} {metadata : Metadata}
      (h : ∀ key, Option.Rel Scalar.StandsFor (members.get? key) (metadata.get? key)) :
      HasMetadata (some (.ofMap members)) metadata

/-- **The fields hold a flag**, whose state stands there as `state` says. -/
structure Holds (state : Json → FlagState → Prop) (field : String → Option Json) (f : Flag) :
    Prop where
  state : ∃ v, field "state" = some v ∧ state v f.state
  defaultVariant : HasDefault (field "defaultVariant") f.defaultVariant
  variants : HasVariants (field "variants") f.variants
  rule : HasRule (field "targeting") f.rule
  metadata : HasMetadata (field "metadata") f.metadata

/-- **The record as it is described**: an object of the fields, the state by its name. -/
def IsDocumented (v : Json) (f : Flag) : Prop :=
  ∃ members : KeyMap Json, v = .ofMap members ∧ Holds FlagState.IsNamed members.get? f

/-- The fields of a list, by their order. -/
def positional (items : List Json) (name : String) : Option Json :=
  valueAt? name (fieldOrder.zip items)

/-- **The values that stand for a flag**: an object of its fields, or a list of them that is not too
long. -/
inductive StandsFor : Json → Flag → Prop
  | object {members : KeyMap Json} {f : Flag} (h : Holds FlagState.StandsFor members.get? f) :
      StandsFor (.ofMap members) f
  | list {items : List Json} {f : Flag} (hlength : items.length ≤ fieldOrder.length)
      (h : Holds FlagState.StandsFor (positional items) f) : StandsFor (.arr items) f

end Flag

/-! ## Fields -/

section Fields

variable {v : Json} {o : Option Json}

/-- An integer is one of 64 bits or the double nearest to it. -/
theorem Scalar.standsFor_int {i : Int} : Scalar.StandsFor (.num (.int i)) (ofNumber (.int i)) := by
  cases hi : Number.isInt64 i with
  | true =>
    simp only [ofNumber, Number.int64?, hi, if_true]
    exact .integer hi
  | false =>
    simp only [ofNumber, Number.int64?, hi, Bool.false_eq_true, if_false]
    exact .wide hi

theorem Scalar.standsFor_iff {s : Scalar} : Scalar.StandsFor v s ↔ Scalar.ofJson? v = some s := by
  constructor
  · rintro (b | h | h | x | s)
    · rfl
    · simp only [ofJson?, ofNumber, Number.int64?, h, if_true]
    · simp only [ofJson?, ofNumber, Number.int64?, h, Bool.false_eq_true, if_false]
      rfl
    · rfl
    · rfl
  · intro h
    cases v with
    | bool b =>
      obtain rfl := Option.some.inj h
      exact .boolean b
    | str s =>
      obtain rfl := Option.some.inj h
      exact .text s
    | num n =>
      obtain rfl := Option.some.inj h
      cases n with
      | double x => exact .double x
      | int i => exact standsFor_int
    | _ => cases h

/-- An object whose members ascend is that of a map. -/
theorem exists_ofMap {entries : List (String × Json)} (h : OnMembers Ascending (obj entries)) :
    ∃ members : KeyMap Json, obj entries = .ofMap members :=
  ⟨⟨entries, h⟩, rfl⟩

/-- A field that may be absent is decoded as what stands there. -/
theorem decodeField_eq_ok_iff {α : Type} {decode : Json → Except DecodeError α} {found : Option α} :
    decodeField decode o = .ok found ↔ Option.Rel (fun v a => decode v = .ok a) o found := by
  cases o with
  | none => cases found <;> simp [decodeField]
  | some v => cases h : decode v <;> cases found <;> simp [decodeField, h, Except.map]

namespace FlagState

variable {name : String} {s : FlagState}

theorem isNamed_iff : IsNamed (.str name) s ↔ ofName name = .ok s := by
  have hnames : IsNamed (.str name) s ↔
      name = "ENABLED" ∧ s = .enabled ∨ name = "DISABLED" ∧ s = .disabled := by
    constructor
    · generalize hv : Json.str name = v
      rintro (- | -)
      · exact .inl ⟨Json.str.inj hv, rfl⟩
      · exact .inr ⟨Json.str.inj hv, rfl⟩
    · rintro (⟨rfl, rfl⟩ | ⟨rfl, rfl⟩)
      · exact .enabled
      · exact .disabled
  rw [hnames, ofName]
  split
  · next h => simp [h, eq_comm]
  · split
    · next h => simp [h, eq_comm]
    · next henabled hdisabled => simp [henabled, hdisabled]

theorem decode_eq_ok_iff : decode v = .ok s ↔ StandsFor v s := by
  constructor
  · intro h
    rw [decode.eq_def] at h
    split at h
    · exact .name (isNamed_iff.mpr h)
    · obtain ⟨state, hname, h⟩ := bind_eq_ok_iff.mp h
      split at h
      · obtain rfl := Except.ok.inj h
        exact .key (isNamed_iff.mpr hname)
      · cases h
    · cases h
    · cases h
  · rintro (⟨⟨⟩⟩ | ⟨⟨⟩⟩) <;> rfl

end FlagState

theorem Flag.hasDefault_iff {name : String} :
    HasDefault o name ↔ ∃ found, decodeField decodeOptionalText o = .ok found ∧
      (found.getD none).getD "" = name := by
  constructor
  · rintro (- | - | -)
    · exact ⟨none, rfl, rfl⟩
    · exact ⟨some none, rfl, rfl⟩
    · exact ⟨some (some name), rfl, rfl⟩
  · rintro ⟨found, hfound, rfl⟩
    rcases o with - | v
    · obtain rfl := Except.ok.inj hfound
      exact .absent
    · cases v with
      | null =>
        obtain rfl := Except.ok.inj hfound
        exact .null
      | str s =>
        obtain rfl := Except.ok.inj hfound
        exact .name s
      | _ => cases hfound

theorem Flag.hasVariants_iff {variants : KeyMap Json} (ho : ∀ v, o = some v → OnMembers Ascending v) :
    HasVariants o variants ↔ ∃ found, decodeField decodeMap o = .ok found ∧
      found.getD ∅ = variants := by
  constructor
  · rintro (- | -)
    · exact ⟨none, rfl, rfl⟩
    · exact ⟨some (KeyMap.ofList variants.entries), rfl, KeyMap.ofList_entries variants⟩
  · rintro ⟨found, hfound, rfl⟩
    rcases o with - | v
    · obtain rfl := Except.ok.inj hfound
      exact .absent
    · cases v with
      | obj entries =>
        obtain rfl := Except.ok.inj hfound
        have heq : obj entries = .ofMap (KeyMap.ofList entries) :=
          congrArg obj (KeyMap.entries_ofList (ho _ rfl)).symm
        rw [heq]
        exact .object _
      | _ => cases hfound

theorem Flag.hasRule_iff {rule : Option Json} : HasRule o rule ↔ ruleOf o = rule := by
  constructor
  · rintro (- | - | - | ⟨hnull, hempty⟩)
    · rfl
    · rfl
    · rfl
    · rw [ruleOf.eq_def]
      split <;> simp_all
  · rintro rfl
    rw [ruleOf.eq_def]
    split
    · exact .absent
    · exact .null
    · exact .empty
    · next v hnull hempty => exact .rule (fun h => hnull (h ▸ rfl)) fun h => hempty (h ▸ rfl)

/-- Entries that are read one by one are all read, or none is. -/
theorem Metadata.mapM_entries {step : String × Json → Except DecodeError (String × Scalar)}
    (hstep : ∀ e, step e = (Scalar.ofJson? e.2).elim (.error .notScalar) fun s => .ok (e.1, s))
    (entries : List (String × Json)) :
    entries.mapM step =
      if ∀ e ∈ entries, (Scalar.ofJson? e.2).isSome then
        .ok (entries.filterMap fun e => (Scalar.ofJson? e.2).map (e.1, ·))
      else .error .notScalar := by
  induction entries with
  | nil => rfl
  | cons e rest ih =>
    rw [List.mapM_cons, ih, hstep]
    simp only [List.forall_mem_cons, List.filterMap_cons]
    rcases Scalar.ofJson? e.2 with - | s
    · simp only [Option.isSome_none, Bool.false_eq_true, false_and, if_false]
      rfl
    · by_cases hrest : ∀ e ∈ rest, (Scalar.ofJson? e.2).isSome
      · rw [if_pos hrest, if_pos ⟨rfl, hrest⟩]
        rfl
      · rw [if_neg hrest, if_neg fun h => hrest h.2]
        rfl

/-- **An object of scalars is read as they are**; one of other values is refused. -/
theorem Metadata.decode_ofMap (members : KeyMap Json) :
    decode (.ofMap members) =
      if ∀ e ∈ members.entries, (Scalar.ofJson? e.2).isSome then
        .ok (members.filterMap fun _ v => Scalar.ofJson? v)
      else .error .notScalar := by
  rw [Json.ofMap, decode, mapM_entries ?_]
  · split
    · exact congrArg Except.ok
        (KeyMap.ofList_entries (members.filterMap fun _ v => Scalar.ofJson? v))
    · rfl
  · rintro ⟨key, v⟩
    simp only [decode?_eq_ofJson?]
    rcases Scalar.ofJson? v with - | s <;> rfl

/-- Entries that the scalars stand for are read as these. -/
theorem Scalar.bind_ofJson?_of_rel {v : Option Json} {s : Option Scalar}
    (h : Option.Rel Scalar.StandsFor v s) :
    v.bind Scalar.ofJson? = s ∧ ∀ w, v = some w → (Scalar.ofJson? w).isSome := by
  cases h with
  | none => exact ⟨rfl, nofun⟩
  | some hs =>
    have hs := Scalar.standsFor_iff.mp hs
    refine ⟨hs, ?_⟩
    rintro _ ⟨⟩
    exact Option.isSome_of_eq_some hs

/-- **What the entries of metadata are read from.** -/
theorem Metadata.decode_ofMap_eq_ok_iff {members : KeyMap Json} {metadata : Metadata} :
    decode (.ofMap members) = .ok metadata ↔
      ∀ key, Option.Rel Scalar.StandsFor (members.get? key) (metadata.get? key) := by
  rw [decode_ofMap]
  constructor
  · intro h key
    split at h
    · next hscalars =>
      obtain rfl := Except.ok.inj h
      rw [KeyMap.get?_filterMap]
      cases hv : members.get? key with
      | none => exact .none
      | some v =>
        obtain ⟨s, hs⟩ := Option.isSome_iff_exists.mp (hscalars _ (mem_of_valueAt? hv))
        rw [Option.bind_some, hs]
        exact .some (Scalar.standsFor_iff.mpr hs)
    · cases h
  · intro h
    have hread (key : String) := Scalar.bind_ofJson?_of_rel (h key)
    have hscalars : ∀ e ∈ members.entries, (Scalar.ofJson? e.2).isSome := fun e he =>
      (hread e.1).2 e.2 (members.ascending.mem_iff.mp he)
    rw [if_pos hscalars]
    exact congrArg Except.ok
      (KeyMap.ext_get? fun key => (KeyMap.get?_filterMap _ _ _).trans (hread key).1)

theorem Flag.hasMetadata_iff {metadata : Metadata} (ho : ∀ v, o = some v → OnMembers Ascending v) :
    HasMetadata o metadata ↔ ∃ found, decodeField Metadata.decode o = .ok found ∧
      found.getD ∅ = metadata := by
  simp only [decodeField_eq_ok_iff]
  constructor
  · rintro (- | h)
    · exact ⟨none, .none, rfl⟩
    · exact ⟨some metadata, .some (Metadata.decode_ofMap_eq_ok_iff.mpr h), rfl⟩
  · rintro ⟨found, hfound, rfl⟩
    cases hfound with
    | none => exact .absent
    | @some v metadata hmetadata =>
      cases v with
      | obj entries =>
        obtain ⟨members, hmembers⟩ := exists_ofMap (ho _ rfl)
        rw [hmembers] at hmetadata ⊢
        exact .object (Metadata.decode_ofMap_eq_ok_iff.mp hmetadata)
      | _ => cases hmetadata

end Fields

/-! ## Flags -/

namespace Flag

/-- What the decoders find in the fields. -/
structure Finds (field : String → Option Json) (fields : Fields) : Prop where
  state : decodeField FlagState.decode (field "state") = .ok fields.state
  defaultVariant :
    decodeField decodeOptionalText (field "defaultVariant") = .ok fields.defaultVariant
  variants : decodeField decodeMap (field "variants") = .ok fields.variants
  targeting : field "targeting" = fields.targeting
  metadata : decodeField Metadata.decode (field "metadata") = .ok fields.metadata

variable {field : String → Option Json} {f : Flag}

/-- **The fields hold the flag that is made of what is found in them.** -/
theorem holds_iff (hfield : ∀ name v, field name = some v → OnMembers Ascending v) :
    Holds FlagState.StandsFor field f ↔ ∃ fields, Finds field fields ∧ fields.flag? = some f := by
  constructor
  · rintro ⟨⟨v, hv, hstate⟩, hdefault, hvariants, hrule, hmetadata⟩
    obtain ⟨default, hdefault, hname⟩ := hasDefault_iff.mp hdefault
    obtain ⟨variants, hvariants, hmap⟩ := (hasVariants_iff (hfield _)).mp hvariants
    obtain ⟨metadata, hmetadata, hscalars⟩ := (hasMetadata_iff (hfield _)).mp hmetadata
    have hstate : decodeField FlagState.decode (field "state") = .ok (some f.state) := by
      rw [hv, decodeField, FlagState.decode_eq_ok_iff.mpr hstate]
      rfl
    refine ⟨⟨some f.state, default, variants, field "targeting", metadata⟩,
      ⟨hstate, hdefault, hvariants, rfl, hmetadata⟩, ?_⟩
    rw [Fields.flag?, Option.map_some]
    simp only [hname, hmap, hscalars, hasRule_iff.mp hrule]
  · rintro ⟨⟨state, default, variants, targeting, metadata⟩,
      ⟨hstate, hdefault, hvariants, htargeting, hmetadata⟩, hflag⟩
    obtain ⟨state, rfl, rfl⟩ := Option.map_eq_some_iff.mp hflag
    refine ⟨?_, hasDefault_iff.mpr ⟨_, hdefault, rfl⟩,
      (hasVariants_iff (hfield _)).mpr ⟨_, hvariants, rfl⟩,
      hasRule_iff.mpr (congrArg ruleOf htargeting),
      (hasMetadata_iff (hfield _)).mpr ⟨_, hmetadata, rfl⟩⟩
    cases hv : field "state" with
    | none =>
      rw [hv] at hstate
      cases hstate
    | some v =>
      rw [hv, decodeField_eq_ok_iff, Option.rel_some_some] at hstate
      exact ⟨v, rfl, FlagState.decode_eq_ok_iff.mp hstate⟩

theorem decodeMembers_eq_ok_iff {members : List (String × Json)} :
    decodeMembers members = .ok f ↔
      ∃ fields, Finds (valueAt? · members) fields ∧ fields.flag? = some f := by
  rw [decodeMembers]
  simp only [bind_eq_ok_iff]
  constructor
  · rintro ⟨default, hdefault, metadata, hmetadata, state, hstate, variants, hvariants, h⟩
    refine ⟨⟨state, default, variants, valueAt? "targeting" members, metadata⟩,
      ⟨hstate, hdefault, hvariants, rfl, hmetadata⟩, ?_⟩
    split at h
    · next hflag => rw [hflag, Except.ok.inj h]
    · cases h
  · rintro ⟨⟨state, default, variants, targeting, metadata⟩,
      ⟨hstate, hdefault, hvariants, rfl, hmetadata⟩, hflag⟩
    refine ⟨default, hdefault, metadata, hmetadata, state, hstate, variants, hvariants, ?_⟩
    rw [hflag]
    rfl

theorem positional_eq (items : List Json) :
    positional items "state" = items[0]? ∧ positional items "defaultVariant" = items[1]? ∧
      positional items "variants" = items[2]? ∧ positional items "targeting" = items[3]? ∧
        positional items "metadata" = items[4]? := by
  rcases items with - | ⟨a, - | ⟨b, - | ⟨c, - | ⟨d, - | ⟨e, rest⟩⟩⟩⟩⟩ <;> exact ⟨rfl, rfl, rfl, rfl, rfl⟩

theorem decodeItems_eq_ok_iff {items : List Json} :
    decodeItems items = .ok f ↔ items.length ≤ fieldOrder.length ∧
      ∃ fields, Finds (positional items) fields ∧ fields.flag? = some f := by
  obtain ⟨hs, hd, hv, ht, hm⟩ := positional_eq items
  rw [decodeItems]
  simp only [bind_eq_ok_iff]
  constructor
  · rintro ⟨state, hstate, default, hdefault, variants, hvariants, metadata, hmetadata, h⟩
    split at h
    · cases h
    · next hflag =>
      split at h
      · cases h
      · next hlength =>
        rw [Except.ok.inj h] at hflag
        exact ⟨Nat.le_of_not_lt hlength, _, ⟨hs ▸ hstate, hd ▸ hdefault, hv ▸ hvariants, ht,
          hm ▸ hmetadata⟩, hflag⟩
  · rintro ⟨hlength, ⟨state, default, variants, targeting, metadata⟩,
      ⟨hstate, hdefault, hvariants, htargeting, hmetadata⟩, hflag⟩
    rw [hs] at hstate
    rw [hd] at hdefault
    rw [hv] at hvariants
    rw [hm] at hmetadata
    refine ⟨state, hstate, default, hdefault, variants, hvariants, metadata, hmetadata, ?_⟩
    rw [← ht, htargeting, hflag]
    simp only [if_neg (Nat.not_lt_of_le hlength)]
    rfl

theorem decode_ofMap_eq_ok_iff {members : KeyMap Json}
    (h : All (OnMembers Ascending) (.ofMap members)) :
    decode (.ofMap members) = .ok f ↔ Holds FlagState.StandsFor members.get? f :=
  decodeMembers_eq_ok_iff.trans
    (holds_iff fun _ _ hv => ((all_obj.mp h).2 _ (mem_of_valueAt? hv)).self).symm

theorem exists_decode_obj_eq_ok_iff {entries : List (String × Json)}
    (h : All (OnMembers Ascending) (.obj entries)) :
    ∃ members : KeyMap Json, .obj entries = Json.ofMap members ∧
      (decode (.obj entries) = .ok f ↔ Holds FlagState.StandsFor members.get? f) := by
  obtain ⟨members, hmembers⟩ := exists_ofMap h.self
  rw [hmembers] at h ⊢
  exact ⟨members, rfl, decode_ofMap_eq_ok_iff h⟩

theorem mem_of_positional {items : List Json} {name : String} {v : Json}
    (h : positional items name = some v) : v ∈ items :=
  (List.of_mem_zip (mem_of_valueAt? h)).2

theorem decode_arr_eq_ok_iff {items : List Json} (h : All (OnMembers Ascending) (.arr items)) :
    decode (.arr items) = .ok f ↔
      items.length ≤ fieldOrder.length ∧ Holds FlagState.StandsFor (positional items) f :=
  decodeItems_eq_ok_iff.trans (and_congr_right fun _ =>
    (holds_iff fun _ _ hv => ((all_arr.mp h).2 _ (mem_of_positional hv)).self).symm)

/-- **A decoded flag is held by what stands in the value.** -/
theorem exists_holds_of_decode {v : Json} (h : All (OnMembers Ascending) v) (hdecode : decode v = .ok f) :
    ∃ field, (∀ name w, field name = some w → w ∈ v.children) ∧ Holds FlagState.StandsFor field f := by
  cases v with
  | obj entries =>
    obtain ⟨members, hmembers⟩ := exists_ofMap h.self
    rw [hmembers] at h hdecode ⊢
    exact ⟨members.get?, fun _ _ hw => List.mem_map_of_mem (mem_of_valueAt? hw),
      (decode_ofMap_eq_ok_iff h).mp hdecode⟩
  | arr items =>
    exact ⟨positional items, fun _ _ => mem_of_positional, ((decode_arr_eq_ok_iff h).mp hdecode).2⟩
  | _ => cases hdecode

theorem Holds.imp {state state' : Json → FlagState → Prop} (h : Holds state field f)
    (himp : ∀ v, field "state" = some v → state v f.state → state' v f.state) :
    Holds state' field f := by
  obtain ⟨v, hv, hstate⟩ := h.state
  exact { h with state := ⟨v, hv, himp v hv hstate⟩ }

/-- **What decodes to a flag.**  A value decodes to a flag exactly when it stands for it; and an object
whose state is no object does so exactly when it is the documented record of the flag. -/
theorem decodes_iff {v : Json} (h : All (OnMembers Ascending) v) (f : Flag) :
    (decode v = .ok f ↔ StandsFor v f) ∧
      (v.isObject = true → (∀ w, v.member? "state" = some w → w.isObject = false) →
        (decode v = .ok f ↔ IsDocumented v f)) := by
  refine ⟨⟨fun hdecode => ?_, ?_⟩, fun hv hstate => ⟨fun hdecode => ?_, ?_⟩⟩
  · cases v with
    | obj entries =>
      obtain ⟨members, hv, hiff⟩ := exists_decode_obj_eq_ok_iff h
      exact hv ▸ .object (hiff.mp hdecode)
    | arr items =>
      obtain ⟨hlength, hholds⟩ := (decode_arr_eq_ok_iff h).mp hdecode
      exact .list hlength hholds
    | _ => cases hdecode
  · rintro (⟨hholds⟩ | ⟨hlength, hholds⟩)
    · exact (decode_ofMap_eq_ok_iff h).mpr hholds
    · exact (decode_arr_eq_ok_iff h).mpr ⟨hlength, hholds⟩
  · cases v with
    | obj entries =>
      obtain ⟨members, hv, hiff⟩ := exists_decode_obj_eq_ok_iff h
      refine ⟨members, hv, (hiff.mp hdecode).imp fun w hw hname => ?_⟩
      cases hname with
      | name hname => exact hname
      | key hname =>
        rw [hv] at hstate
        cases hstate _ hw
    | _ => cases hv
  · rintro ⟨members, rfl, hholds⟩
    exact (decode_ofMap_eq_ok_iff h).mpr (hholds.imp fun _ _ => .name)

/-- A list of all five fields, the state by its key. -/
def listedFlag : Json :=
  .arr [.obj [("ENABLED", .null)], .null, .obj [("on", .bool true)], .obj [], .obj [("size", .int 3)]]

theorem decodes_iff_listed :
    All (OnMembers Ascending) listedFlag ∧
      StandsFor listedFlag ⟨.enabled, "", KeyMap.ofList [("on", .bool true)], none,
        KeyMap.ofList [("size", .integer 3)]⟩ := by
  have hascending : All (OnMembers Ascending) listedFlag := by decide
  exact ⟨hascending, (decodes_iff hascending _).1.mp rfl⟩

/-- **More than the documented record is taken**: a list, and a state by its key. -/
theorem decode_undocumented :
    (decode (.arr [.str "ENABLED"]) = .ok (bare .enabled "") ∧
      ∀ f, ¬ IsDocumented (.arr [.str "ENABLED"]) f) ∧
      decode (.obj [("state", .obj [("ENABLED", .null)])]) = .ok (bare .enabled "") ∧
        ∀ f, ¬ IsDocumented (.obj [("state", .obj [("ENABLED", .null)])]) f := by
  refine ⟨⟨rfl, ?_⟩, rfl, ?_⟩
  · rintro f ⟨members, hv, -⟩
    cases hv
  · rintro f ⟨members, hv, ⟨w, hw, hstate⟩, -⟩
    have hentries := obj.inj hv
    rw [KeyMap.get?, ← hentries] at hw
    obtain rfl := Option.some.inj hw
    cases hstate

end Flag

end FeatureFlags
