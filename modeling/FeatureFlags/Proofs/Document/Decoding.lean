import FeatureFlags.Document.Parsing
import FeatureFlags.Proofs.Document.Renaming

/-!
# Proofs/Document/Decoding — the table of a document under new names

New names in the references of a document leave its flags as they are, but for the references that
stand in them: a document under new names has the table with these names in it, or is refused for the
same reason (`Document.decode_renamed`).  Its shape is as right or wrong as before
(`Schema.violations_renamed`).
-/

namespace FeatureFlags

open Token

/-! ## Results that agree -/

/-- **Two results agree**: the second is the image of the first, or both are errors that are alike. -/
inductive Agree {α β ε : Type} (f : α → β) (like : ε → ε → Prop) : Except ε α → Except ε β → Prop
  | ok (a : α) : Agree f like (.ok a) (.ok (f a))
  | error {x y : ε} (h : like x y) : Agree f like (.error x) (.error y)

namespace Agree

variable {α β γ δ ε : Type} {f : α → β} {g : γ → δ} {like : ε → ε → Prop}

theorem bind {x : Except ε α} {y : Except ε β} {k : α → Except ε γ} {l : β → Except ε δ}
    (h : Agree f like x y) (hk : ∀ a, Agree g like (k a) (l (f a))) :
    Agree g like (x >>= k) (y >>= l) := by
  rcases h with ⟨a⟩ | ⟨h⟩
  · exact hk a
  · exact .error h

theorem mapM {k : α → Except ε γ} {l : β → Except ε δ} {as : List α}
    (h : ∀ a ∈ as, Agree g like (k a) (l (f a))) :
    Agree (List.map g) like (as.mapM k) ((as.map f).mapM l) := by
  induction as with
  | nil => exact .ok []
  | cons a as ih =>
    obtain ⟨ha, has⟩ := List.forall_mem_cons.mp h
    rw [List.map_cons, List.mapM_cons, List.mapM_cons]
    refine ha.bind ?_
    intro c
    refine (ih has).bind ?_
    intro cs
    exact .ok (c :: cs)

end Agree

/-- **Two refusals are alike**: they have one reason, and blame one flag if they blame a flag. -/
inductive DocumentError.Alike : DocumentError → DocumentError → Prop
  | notJson : Alike .notJson .notJson
  | noFlags : Alike .noFlags .noFlags
  | badFlag (key : String) (cause cause' : DecodeError) :
      Alike (.badFlag key cause) (.badFlag key cause')
  | badFragment (name name' message : String) :
      Alike (.badFragment ⟨name, message⟩) (.badFragment ⟨name', message⟩)
  | violations (found found' : List Violation) : Alike (.violations found) (.violations found')

/-! ## Tables under new names -/

namespace Scalar

/-- What stands under a key, with a new name if it is one that is referred to. -/
def renamedAt (ρ : String → String) (key : String) : Scalar → Scalar
  | text s => text (if key = refKey then ρ s else s)
  | s => s

end Scalar

/-- **Annotations under new names.** -/
def Metadata.renamed (ρ : String → String) (m : Metadata) : Metadata :=
  m.mapped (Scalar.renamedAt ρ)

/-- **A flag under new names**: they stand in its variants, its rule and its metadata. -/
def Flag.renamed (ρ : String → String) (f : Flag) : Flag :=
  { f with
    variants := f.variants.mapped (Json.renamedAt ρ)
    rule := f.rule.map (Json.renamed ρ)
    metadata := f.metadata.renamed ρ }

/-- **A table under new names.** -/
def FlagSet.renamed (ρ : String → String) (s : FlagSet) : FlagSet :=
  ⟨s.flags.mapped fun _ => Flag.renamed ρ, s.metadata.renamed ρ⟩

/-! ## Fields -/

section Fields

variable {ρ : String → String} {α β : Type}

/-- Any two faults of a flag are alike. -/
abbrev AnyFault (_ _ : DecodeError) : Prop := True

theorem agree_decodeField {f : α → β} {decode : Json → Except DecodeError α}
    {decode' : Json → Except DecodeError β}
    (h : ∀ v, Agree f AnyFault (decode v) (decode' (v.renamed ρ))) (o : Option Json) :
    Agree (Option.map f) AnyFault (Json.decodeField decode o)
      (Json.decodeField decode' (o.map (Json.renamed ρ))) := by
  rcases o with - | v
  · exact .ok none
  · exact (h v).bind fun a => .ok (some a)

theorem agree_decodeOptionalText (v : Json) :
    Agree id AnyFault v.decodeOptionalText (v.renamed ρ).decodeOptionalText := by
  cases v with
  | null => exact .ok none
  | str s => exact .ok (some s)
  | _ => exact .error trivial

theorem agree_decodeMap (v : Json) :
    Agree (KeyMap.mapped (Json.renamedAt ρ)) AnyFault v.decodeMap (v.renamed ρ).decodeMap := by
  cases v with
  | obj members =>
    rw [Json.renamed_obj, Json.decodeMap, Json.decodeMap, KeyMap.ofList_mapped]
    exact .ok _
  | _ => exact .error trivial

/-- The two readings of a scalar give the same. -/
theorem decode?_eq_ofJson? (v : Json) : Scalar.decode? v = Scalar.ofJson? v := by
  cases v with
  | num n =>
    simp only [Scalar.decode?, List.findSome?_cons, Scalar.boolean?, Scalar.integer?,
      Scalar.double?, Scalar.ofJson?, Scalar.ofNumber]
    rcases n.int64? with - | i <;> rfl
  | _ => rfl

theorem ofJson?_renamedAt (key : String) (v : Json) :
    Scalar.ofJson? (Json.renamedAt ρ key v) = (Scalar.ofJson? v).map (Scalar.renamedAt ρ key) := by
  rcases Json.renamedAt_cases ρ key v with ⟨n, rfl, rfl, hnew⟩ | ⟨hname, hnew⟩
  · rw [hnew]
    rfl
  · rw [hnew]
    cases v with
    | str s =>
      have hkey : key ≠ refKey := by
        rintro rfl
        cases hname
      change some (Scalar.text s) = some (Scalar.text (if key = refKey then ρ s else s))
      rw [if_neg hkey]
    | num n =>
      change some (Scalar.ofNumber n) = some (Scalar.renamedAt ρ key (Scalar.ofNumber n))
      rw [Scalar.ofNumber]
      rcases n.int64? with - | i <;> rfl
    | _ => rfl

theorem agree_decodeMetadata (v : Json) :
    Agree (Metadata.renamed ρ) AnyFault (Metadata.decode v) (Metadata.decode (v.renamed ρ)) := by
  cases v with
  | obj members =>
    rw [Json.renamed_obj, Metadata.decode, Metadata.decode]
    refine Agree.bind (f := List.map fun e : String × Scalar => (e.1, e.2.renamedAt ρ e.1))
      (Agree.mapM ?_) ?_
    · rintro ⟨key, v⟩ -
      simp only [decode?_eq_ofJson?, ofJson?_renamedAt]
      rcases Scalar.ofJson? v with - | s
      · exact .error trivial
      · exact .ok (key, s)
    · intro entries
      rw [KeyMap.ofList_mapped (Scalar.renamedAt ρ) entries]
      exact .ok (KeyMap.ofList entries)
  | _ => exact .error trivial

/-- A value is null under new names when it is null. -/
theorem renamedAt_ne_null (key : String) {v : Json} (h : v ≠ .null) :
    Json.renamedAt ρ key v ≠ .null := by
  rcases Json.renamedAt_cases ρ key v with ⟨n, -, -, hnew⟩ | ⟨-, hnew⟩
  · rw [hnew]
    simp
  · rw [hnew]
    cases v with
    | null => exact absurd rfl h
    | _ => simp [Json.renamed, Json.spliced]

theorem renamedAt_null (key : String) : Json.renamedAt ρ key .null = .null := by
  rcases Json.renamedAt_cases ρ key .null with ⟨n, -, hv, -⟩ | ⟨-, hnew⟩
  · cases hv
  · exact hnew

/-- Only null stands under the name of a state. -/
theorem decodeState_of_ne_null (name : String) {content : Json} (h : content ≠ .null) :
    FlagState.decode (.obj [(name, content)]) =
      FlagState.ofName name >>= fun _ => throw (.kind content .unit) := by
  cases content with
  | null => exact absurd rfl h
  | _ => rfl

theorem agree_decodeState (v : Json) :
    Agree id AnyFault (FlagState.decode v) (FlagState.decode (v.renamed ρ)) := by
  have hname (name : String) :
      Agree id AnyFault (FlagState.ofName name) (FlagState.ofName name) := by
    rcases FlagState.ofName name with fault | state
    · exact .error trivial
    · exact .ok state
  cases v with
  | str name => exact hname name
  | obj members =>
    rw [Json.renamed_obj]
    rcases members with - | ⟨⟨name, content⟩, - | ⟨m, rest⟩⟩
    · exact .error trivial
    · rw [List.map_singleton]
      by_cases hnull : content = .null
      · rw [hnull, renamedAt_null]
        exact (hname name).bind fun state => .ok state
      · rw [decodeState_of_ne_null name hnull,
          decodeState_of_ne_null name (renamedAt_ne_null name hnull)]
        exact (hname name).bind fun _ => .error trivial
    · exact .error trivial
  | _ => exact .error trivial

end Fields

/-! ## Flags -/

section Flags

variable {ρ : String → String}

theorem ruleOf_renamed (o : Option Json) :
    Flag.ruleOf (o.map (Json.renamed ρ)) = (Flag.ruleOf o).map (Json.renamed ρ) := by
  rcases o with - | v
  · rfl
  · cases v with
    | obj members =>
      rw [Option.map_some, Json.renamed_obj]
      rcases members with - | ⟨m, rest⟩
      · rfl
      · change some (Json.obj _) = some ((Json.obj (m :: rest)).renamed ρ)
        rw [Json.renamed_obj]
    | _ => rfl

theorem flag?_renamed (state : Option FlagState) (defaultVariant : Option (Option String))
    (variants : Option (KeyMap Json)) (targeting : Option Json) (metadata : Option Metadata) :
    Flag.Fields.flag? ⟨state, defaultVariant, variants.map (KeyMap.mapped (Json.renamedAt ρ)),
        targeting.map (Json.renamed ρ), metadata.map (Metadata.renamed ρ)⟩ =
      (Flag.Fields.flag? ⟨state, defaultVariant, variants, targeting, metadata⟩).map
        (Flag.renamed ρ) := by
  rcases state with - | state
  · rfl
  · simp only [Flag.Fields.flag?, Option.map_some, ruleOf_renamed, Flag.renamed]
    rcases variants with - | variants <;> rcases metadata with - | metadata <;> rfl

theorem agree_decodeMembers (members : List (String × Json)) :
    Agree (Flag.renamed ρ) AnyFault (Flag.decodeMembers members)
      (Flag.decodeMembers (members.map fun m => (m.1, Json.renamedAt ρ m.1 m.2))) := by
  rw [Flag.decodeMembers, Flag.decodeMembers]
  simp only [Json.valueAt?_renamedAt (show "defaultVariant" ≠ refKey by decide),
    Json.valueAt?_renamedAt (show "metadata" ≠ refKey by decide),
    Json.valueAt?_renamedAt (show "state" ≠ refKey by decide),
    Json.valueAt?_renamedAt (show "variants" ≠ refKey by decide),
    Json.valueAt?_renamedAt (show "targeting" ≠ refKey by decide)]
  refine (agree_decodeField agree_decodeOptionalText _).bind fun defaultVariant => ?_
  refine (agree_decodeField agree_decodeMetadata _).bind fun metadata => ?_
  refine (agree_decodeField agree_decodeState _).bind fun state => ?_
  refine (agree_decodeField agree_decodeMap _).bind fun variants => ?_
  simp only [Option.map_id, id_eq, flag?_renamed]
  rcases Flag.Fields.flag? _ with - | flag
  · exact .error trivial
  · exact .ok flag

theorem agree_decodeItems (items : List Json) :
    Agree (Flag.renamed ρ) AnyFault (Flag.decodeItems items)
      (Flag.decodeItems (items.map (Json.renamed ρ))) := by
  rw [Flag.decodeItems, Flag.decodeItems]
  simp only [List.getElem?_map, List.length_map]
  refine (agree_decodeField agree_decodeState _).bind fun state => ?_
  refine (agree_decodeField agree_decodeOptionalText _).bind fun defaultVariant => ?_
  refine (agree_decodeField agree_decodeMap _).bind fun variants => ?_
  refine (agree_decodeField agree_decodeMetadata _).bind fun metadata => ?_
  simp only [Option.map_id, id_eq, flag?_renamed]
  rcases Flag.Fields.flag? _ with - | flag
  · exact .error trivial
  · by_cases hlong : Flag.fieldOrder.length < items.length
    · simp only [Option.map_some, if_pos hlong]
      exact .error trivial
    · simp only [Option.map_some, if_neg hlong]
      exact .ok flag

/-- **A flag under new names.** -/
theorem agree_decode (v : Json) :
    Agree (Flag.renamed ρ) AnyFault (Flag.decode v) (Flag.decode (v.renamed ρ)) := by
  cases v with
  | obj members =>
    rw [Json.renamed_obj]
    exact agree_decodeMembers members
  | arr items =>
    rw [Json.renamed_arr]
    exact agree_decodeItems items
  | _ => exact .error trivial

end Flags

/-! ## Documents -/

namespace Document

variable {ρ : String → String}

theorem agree_decodeFlag (key : String) (v : Json) :
    Agree (fun e => (e.1, e.2.renamed ρ)) DocumentError.Alike (decodeFlag (key, v))
      (decodeFlag (key, Json.renamedAt ρ key v)) := by
  rcases Json.renamedAt_cases ρ key v with ⟨n, rfl, rfl, hnew⟩ | ⟨-, hnew⟩
  · rw [hnew]
    exact .error (.badFlag _ _ _)
  · rw [hnew, decodeFlag, decodeFlag]
    have h := @agree_decode ρ v
    generalize Flag.decode v = flag, Flag.decode (v.renamed ρ) = flag' at h
    rcases h with ⟨flag⟩ | ⟨-⟩
    · exact .ok (key, flag)
    · exact .error (.badFlag _ _ _)

theorem decodeMetadata_renamed (o : Option Json) :
    decodeMetadata (o.map (Json.renamed ρ)) = (decodeMetadata o).renamed ρ := by
  rcases o with - | v
  · rfl
  · cases v with
    | obj members =>
      rw [Option.map_some, Json.renamed_obj, decodeMetadata, decodeMetadata, Metadata.ofMembers,
        Metadata.ofMembers, KeyMap.ofList_mapped]
      refine KeyMap.ext_get? ?_
      intro key
      rw [Metadata.renamed, KeyMap.get?_mapped, KeyMap.get?_filterMap, KeyMap.get?_filterMap,
        KeyMap.get?_mapped]
      rcases (KeyMap.ofList members).get? key with - | v
      · rfl
      · exact ofJson?_renamedAt key v
    | _ => rfl

/-- **The table of a document under new names** is its table under new names. -/
theorem decode_renamed (v : Json) :
    Agree (FlagSet.renamed ρ) DocumentError.Alike (decode v) (decode (v.renamed ρ)) := by
  rw [decode, decode, Json.member?_renamed (by decide), Json.member?_renamed (by decide),
    decodeMetadata_renamed]
  rcases v.member? "flags" with - | flags
  · exact .error .noFlags
  · cases flags with
    | obj flags =>
      rw [Option.map_some, Json.renamed_obj]
      refine Agree.bind (f := List.map fun e : String × Flag => (e.1, e.2.renamed ρ))
        (Agree.mapM fun e _ => agree_decodeFlag e.1 e.2) ?_
      intro decoded
      rw [KeyMap.ofList_mapped (fun _ => Flag.renamed ρ) decoded]
      exact .ok (FlagSet.mk (KeyMap.ofList decoded) _)
    | _ => exact .error .noFlags

/-- Documents that are alike but for their fragments have one table. -/
theorem decode_congr {v u : Json} (h : AlikeButFragments v u) : decode v = decode u := by
  rw [decode, decode, h "flags" (by decide), h "metadata" (by decide)]

end Document

/-! ## Shapes -/

namespace Schema

variable {ρ : String → String}

theorem stateViolations_renamed (path : String) (o : Option Json) :
    stateViolations path (o.map (Json.renamed ρ)) = stateViolations path o := by
  rcases o with - | v
  · rfl
  · cases v <;> rfl

theorem variantsViolations_renamed (path : String) (o : Option Json) :
    variantsViolations path (o.map (Json.renamed ρ)) = variantsViolations path o := by
  rcases o with - | v
  · rfl
  · cases v with
    | obj members =>
      rw [Option.map_some, Json.renamed_obj]
      rcases members with - | ⟨m, rest⟩ <;> rfl
    | _ => rfl

theorem targetingViolations_renamed (path : String) (o : Option Json) :
    targetingViolations path (o.map (Json.renamed ρ)) = targetingViolations path o := by
  rcases o with - | v
  · rfl
  · cases v <;> rfl

theorem declaredVariants_renamed (o : Option Json) :
    declaredVariants (o.map (Json.renamed ρ)) =
      (declaredVariants o).map (List.map fun m => (m.1, Json.renamedAt ρ m.1 m.2)) := by
  rcases o with - | v
  · rfl
  · cases v with
    | obj members =>
      rw [Option.map_some, Json.renamed_obj]
      rcases members with - | ⟨m, rest⟩ <;> rfl
    | _ => rfl

theorem defaultViolations_renamed (path : String) (variants : Option (List (String × Json)))
    (o : Option Json) :
    defaultViolations path
        (variants.map (List.map fun m => (m.1, Json.renamedAt ρ m.1 m.2)))
        (o.map (Json.renamed ρ)) =
      defaultViolations path variants o := by
  rcases o with - | v
  · rfl
  · cases v with
    | str name =>
      rcases variants with - | declared
      · rfl
      · have hfound : (valueAt? name (declared.map fun m => (m.1, Json.renamedAt ρ m.1 m.2))).isSome =
            (valueAt? name declared).isSome := by
          rw [valueAt?_map, Option.isSome_map]
        change (if _ = true then _ else _) = if _ = true then _ else _
        rw [hfound]
    | _ => rfl

theorem isScalar_renamedAt (key : String) (v : Json) :
    isScalar (Json.renamedAt ρ key v) = isScalar v := by
  rcases Json.renamedAt_cases ρ key v with ⟨n, -, rfl, hnew⟩ | ⟨-, hnew⟩
  · rw [hnew]
    rfl
  · rw [hnew]
    cases v <;> rfl

theorem metadataViolations_renamed (path : String) (v : Json) :
    metadataViolations path (v.renamed ρ) = metadataViolations path v := by
  cases v with
  | obj members =>
    rw [Json.renamed_obj, metadataViolations, metadataViolations, List.filterMap_map]
    refine List.filterMap_congr ?_
    rintro ⟨key, v⟩ -
    simp only [Function.comp_apply, isScalar_renamedAt]
  | _ => rfl

/-- **What is wrong with a flag** does not depend on what it refers to. -/
theorem flagViolations_renamedAt (path key : String) (v : Json) :
    flagViolations path (Json.renamedAt ρ key v) = flagViolations path v := by
  rcases Json.renamedAt_cases ρ key v with ⟨n, -, rfl, hnew⟩ | ⟨-, hnew⟩
  · rw [hnew]
    rfl
  · rw [hnew]
    cases v with
    | obj members =>
      rw [Json.renamed_obj, flagViolations, flagViolations]
      simp only [Json.valueAt?_renamedAt (show "state" ≠ refKey by decide),
        Json.valueAt?_renamedAt (show "variants" ≠ refKey by decide),
        Json.valueAt?_renamedAt (show "defaultVariant" ≠ refKey by decide),
        Json.valueAt?_renamedAt (show "targeting" ≠ refKey by decide),
        Json.valueAt?_renamedAt (show "metadata" ≠ refKey by decide), stateViolations_renamed,
        variantsViolations_renamed, targetingViolations_renamed, declaredVariants_renamed, defaultViolations_renamed]
      rcases valueAt? "metadata" members with - | metadata
      · rfl
      · simp only [Option.map_some, metadataViolations_renamed]
    | _ => rfl

theorem flagsViolations_renamed (o : Option Json) :
    flagsViolations (o.map (Json.renamed ρ)) = flagsViolations o := by
  rcases o with - | v
  · rfl
  · cases v with
    | obj flags =>
      rw [Option.map_some, Json.renamed_obj, flagsViolations, flagsViolations, List.flatMap_map]
      exact List.flatMap_congr fun m _ => flagViolations_renamedAt _ m.1 m.2
    | _ => rfl

/-- **New names leave the shape of a document as right or wrong as before**, if they leave its
fragments so. -/
theorem violations_renamed {v u : Json} (hobject : u.isObject = v.isObject)
    (h : Document.AlikeButFragments u (v.renamed ρ))
    (hfragments : fragmentsViolations (u.member? "$evaluators") = [] ↔
      fragmentsViolations (v.member? "$evaluators") = []) :
    violations u = [] ↔ violations v = [] := by
  have hfield {key : String} (hkey : key ≠ "$evaluators") (hname : key ≠ refKey) :
      u.member? key = (v.member? key).map (Json.renamed ρ) :=
    (h key hkey).trans (Json.member?_renamed hname v)
  by_cases hv : v.isObject = true
  · obtain ⟨members, rfl⟩ := Json.exists_of_isObject hv
    obtain ⟨others, rfl⟩ := Json.exists_of_isObject (hobject.trans hv)
    have hflags := hfield (show "flags" ≠ "$evaluators" by decide) (by decide)
    have hmetadata := hfield (show "metadata" ≠ "$evaluators" by decide) (by decide)
    change valueAt? "flags" others = (valueAt? "flags" members).map (Json.renamed ρ) at hflags
    change valueAt? "metadata" others = (valueAt? "metadata" members).map (Json.renamed ρ) at hmetadata
    change fragmentsViolations (valueAt? "$evaluators" others) = [] ↔
      fragmentsViolations (valueAt? "$evaluators" members) = [] at hfragments
    rw [violations, violations, hflags, hmetadata, flagsViolations_renamed]
    simp only [List.append_eq_nil_iff, hfragments]
    rcases valueAt? "metadata" members with - | metadata
    · rfl
    · simp only [Option.map_some, metadataViolations_renamed]
  · have hnonempty {w : Json} (hw : ¬ w.isObject = true) : violations w ≠ [] := by
      cases w with
      | obj members => exact absurd rfl hw
      | _ => exact List.cons_ne_nil _ _
    exact iff_of_false (hnonempty (hobject ▸ hv)) (hnonempty hv)

end Schema

end FeatureFlags
