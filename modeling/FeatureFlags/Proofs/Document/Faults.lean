import FeatureFlags.Document.Schema
import FeatureFlags.Proofs.Document.Parsing
import FeatureFlags.Proofs.Json.Pointer

/-!
# Proofs/Document/Faults — where a document does not have the shape it should have

`Schema.Fault` says what is wrong in a document and at which place: the row of keys that leads to it.
`Schema.violations` lists these faults and no others (`mem_violations_iff`), each under the keys of its
place as they are.  So the path of a violation is the pointer to its place exactly if none of these keys
needs an escape (`path_points_iff`): with a slash or a tilde in a key it leads elsewhere or nowhere, and
two faults at different places may have one path.
-/

namespace FeatureFlags.Schema

open Json

/-! ## Faults -/

/-- **What is wrong with annotations**, and where in them. -/
inductive MetadataFault (v : Json) : List String → String → Prop
  | shape (h : v.isObject = false) : MetadataFault v [] "must be an object"
  | entry {key : String} {w : Json} (h : v.member? key = some w) (hw : isScalar w = false) :
      MetadataFault v [key] "metadata values must be scalars"

/-- **What is wrong with a flag**, and where in it. -/
inductive FlagFault (flag : Json) : List String → String → Prop
  | shape (h : flag.isObject = false) : FlagFault flag [] "flag must be an object"
  /-- The state is absent, or another one. -/
  | state (h : flag.isObject = true) (henabled : flag.member? "state" ≠ some (.str "ENABLED"))
      (hdisabled : flag.member? "state" ≠ some (.str "DISABLED")) :
      FlagFault flag ["state"] "must be ENABLED or DISABLED"
  /-- The variants are absent, or no object. -/
  | variants (h : flag.isObject = true)
      (hvariants : ∀ declared, flag.member? "variants" ≠ some (.obj declared)) :
      FlagFault flag ["variants"] "must be an object"
  | noVariant (h : flag.member? "variants" = some (.obj [])) :
      FlagFault flag ["variants"] "must declare at least one variant"
  | undeclared {name : String} {declared : List (String × Json)}
      (hvariants : flag.member? "variants" = some (.obj declared)) (hne : declared ≠ [])
      (h : flag.member? "defaultVariant" = some (.str name)) (hname : valueAt? name declared = none) :
      FlagFault flag ["defaultVariant"] ("variant `" ++ name ++ "` is not declared")
  | defaultVariant {v : Json} (h : flag.member? "defaultVariant" = some v) (hnull : v ≠ .null)
      (htext : v.string? = none) : FlagFault flag ["defaultVariant"] "must be a string or null"
  | targeting {v : Json} (h : flag.member? "targeting" = some v) (hnull : v ≠ .null)
      (hobject : v.isObject = false) : FlagFault flag ["targeting"] "must be an object"
  | metadata {v : Json} {place : List String} {message : String}
      (h : flag.member? "metadata" = some v) (hfault : MetadataFault v place message) :
      FlagFault flag ("metadata" :: place) message

/-- **What is wrong with a document**, and where in it. -/
inductive Fault (document : Json) : List String → String → Prop
  | shape (h : document.isObject = false) : Fault document [] "document must be an object"
  | noFlags (hobject : document.isObject = true) (h : document.member? "flags" = none) :
      Fault document ["flags"] "is required"
  | flags {v : Json} (h : document.member? "flags" = some v) (hobject : v.isObject = false) :
      Fault document ["flags"] "must be an object"
  | flag {flags flag : Json} {key message : String} {place : List String}
      (h : document.member? "flags" = some flags) (hflag : flags.member? key = some flag)
      (hfault : FlagFault flag place message) : Fault document ("flags" :: key :: place) message
  | fragments {v : Json} (h : document.member? "$evaluators" = some v) (hobject : v.isObject = false) :
      Fault document ["$evaluators"] "must be an object"
  | fragment {fragments v : Json} {name : String} (h : document.member? "$evaluators" = some fragments)
      (hfragment : fragments.member? name = some v) (hobject : v.isObject = false) :
      Fault document ["$evaluators", name] "fragment must be an object"
  | metadata {v : Json} {place : List String} {message : String}
      (h : document.member? "metadata" = some v) (hfault : MetadataFault v place message) :
      Fault document ("metadata" :: place) message

/-! ## Violations are faults -/

/-- **A violation reports one of some faults**, under the keys of its place. -/
def Reports (fault : List String → String → Prop) (path : String) (x : Violation) : Prop :=
  ∃ place message, fault place message ∧ x = ⟨path ++ Pointer.path place, message⟩

section Reports

variable {path : String} {o : Option Json} {v flag document : Json} {x : Violation}
  {fault : List String → String → Prop} {above : List String}

theorem member?_of_not_isObject (h : v.isObject = false) (key : String) : v.member? key = none := by
  cases v with
  | obj members => cases h
  | _ => rfl

/-- The members of a member ascend, too. -/
theorem all_member? {p : Json → Prop} (hall : All p v) {key : String} {w : Json}
    (h : v.member? key = some w) : All p w := by
  obtain ⟨members, rfl, hvalue⟩ := exists_of_member? h
  exact (all_obj.mp hall).2 _ (mem_of_valueAt? hvalue)

/-- A fault at the place itself. -/
theorem reports_here {message : String} (h : fault [] message) : Reports fault path ⟨path, message⟩ :=
  ⟨[], message, h, by rw [Pointer.path, String.append_empty]⟩

/-- A fault further down is reported under all keys of its place. -/
theorem reports_below_iff :
    Reports fault (path ++ Pointer.path above) x ↔
      ∃ place message, fault place message ∧ x = ⟨path ++ Pointer.path (above ++ place), message⟩ := by
  simp only [Reports, Pointer.path_append, String.append_assoc]

/-! ### The parts of a flag -/

theorem mem_metadataViolations_iff (hascending : OnMembers Ascending v) :
    x ∈ metadataViolations path v ↔ Reports (MetadataFault v) path x := by
  constructor
  · intro hx
    cases v with
    | obj members =>
      obtain ⟨⟨key, w⟩, hmem, hx⟩ := List.mem_filterMap.mp hx
      simp only [Option.ite_none_left_eq_some, Option.some.injEq, Bool.not_eq_true] at hx
      obtain ⟨hw, rfl⟩ := hx
      refine ⟨[key], _, .entry ((onMembers_obj.mp hascending).mem_iff.mp hmem) hw, ?_⟩
      rw [Pointer.path_singleton, String.append_assoc]
    | _ =>
      obtain rfl := List.mem_singleton.mp hx
      exact reports_here (.shape rfl)
  · rintro ⟨place, message, hfault, rfl⟩
    cases hfault with
    | shape h =>
      rw [Pointer.path, String.append_empty]
      cases v with
      | obj members => cases h
      | _ => exact List.mem_singleton_self _
    | entry h hw =>
      obtain ⟨members, rfl, hvalue⟩ := exists_of_member? h
      refine List.mem_filterMap.mpr ⟨_, mem_of_valueAt? hvalue, ?_⟩
      simp [hw, Pointer.path_singleton, String.append_assoc]

/-- The annotations that are a member of an object. -/
theorem mem_metadataMember_iff (hascending : All (OnMembers Ascending) v) :
    x ∈ (match v.member? "metadata" with
      | some metadata => metadataViolations (path ++ Pointer.path ["metadata"]) metadata
      | none => []) ↔ ∃ metadata place message, v.member? "metadata" = some metadata ∧
        MetadataFault metadata place message ∧
          x = ⟨path ++ Pointer.path ("metadata" :: place), message⟩ := by
  cases hmember : v.member? "metadata" with
  | none => simp
  | some metadata =>
    simp [mem_metadataViolations_iff (all_member? hascending hmember).self, reports_below_iff]

theorem mem_stateViolations_iff :
    x ∈ stateViolations path o ↔ (o ≠ some (.str "ENABLED") ∧ o ≠ some (.str "DISABLED")) ∧
      x = ⟨path, "must be ENABLED or DISABLED"⟩ := by
  rw [stateViolations.eq_def]
  split <;> simp_all

theorem mem_variantsViolations_iff :
    x ∈ variantsViolations path o ↔
      o = some (.obj []) ∧ x = ⟨path, "must declare at least one variant"⟩ ∨
        (∀ declared, o ≠ some (.obj declared)) ∧ x = ⟨path, "must be an object"⟩ := by
  rw [variantsViolations.eq_def]
  split <;> simp_all

theorem declaredVariants_eq_some_iff {declared : List (String × Json)} :
    declaredVariants o = some declared ↔ o = some (.obj declared) ∧ declared ≠ [] := by
  rw [declaredVariants.eq_def]
  split
  · grind
  · rename_i hnone
    constructor
    · exact nofun
    · rintro ⟨rfl, hne⟩
      obtain ⟨first, rest, rfl⟩ := List.exists_cons_of_ne_nil hne
      exact absurd rfl (hnone first rest)

theorem mem_defaultViolations_iff {variants : Option (List (String × Json))} :
    x ∈ defaultViolations path variants o ↔
      (∃ name declared, variants = some declared ∧ o = some (.str name) ∧ valueAt? name declared = none ∧
          x = ⟨path, "variant `" ++ name ++ "` is not declared"⟩) ∨
        (∃ v, o = some v ∧ v ≠ .null ∧ v.string? = none) ∧ x = ⟨path, "must be a string or null"⟩ := by
  rw [defaultViolations.eq_def]
  split
  · simp
  · simp
  · rename_i name
    cases variants with
    | none => simp [string?]
    | some declared =>
      cases hname : valueAt? name declared <;> simp [string?, hname]
  · rename_i v hnull htext
    have hv : v ≠ .null ∧ v.string? = none := by
      cases v <;> simp_all [string?]
    simp [hv]
    grind

theorem mem_targetingViolations_iff :
    x ∈ targetingViolations path o ↔
      (∃ v, o = some v ∧ v ≠ .null ∧ v.isObject = false) ∧ x = ⟨path, "must be an object"⟩ := by
  rw [targetingViolations.eq_def]
  split
  · simp
  · simp
  · simp [isObject, members?]
  · rename_i v hnull hobject
    have hv : v ≠ .null ∧ v.isObject = false := by
      cases v <;> simp_all [isObject, members?]
    simp [hv]

/-- What is wrong with the fields of an object. -/
theorem flagViolations_of_isObject (h : flag.isObject = true) :
    flagViolations path flag = stateViolations (path ++ Pointer.path ["state"]) (flag.member? "state") ++
      variantsViolations (path ++ Pointer.path ["variants"]) (flag.member? "variants") ++
      defaultViolations (path ++ Pointer.path ["defaultVariant"])
        (declaredVariants (flag.member? "variants")) (flag.member? "defaultVariant") ++
      targetingViolations (path ++ Pointer.path ["targeting"]) (flag.member? "targeting") ++
      match flag.member? "metadata" with
      | some metadata => metadataViolations (path ++ Pointer.path ["metadata"]) metadata
      | none => [] := by
  cases flag with
  | obj members => rfl
  | _ => cases h

theorem flagViolations_of_not_isObject (h : flag.isObject = false) :
    flagViolations path flag = [⟨path, "flag must be an object"⟩] := by
  cases flag with
  | obj members => cases h
  | _ => rfl

/-- Of what is no object only the shape is wrong. -/
theorem flagFault_iff_of_not_isObject {place : List String} {message : String}
    (h : flag.isObject = false) :
    FlagFault flag place message ↔ place = [] ∧ message = "flag must be an object" := by
  have hnone := member?_of_not_isObject h
  constructor
  · intro hfault
    cases hfault <;> simp_all
  · rintro ⟨rfl, rfl⟩
    exact .shape h

/-- **The violations of a flag report its faults.** -/
theorem mem_flagViolations_iff (hascending : All (OnMembers Ascending) flag) :
    x ∈ flagViolations path flag ↔ Reports (FlagFault flag) path x := by
  cases hobject : flag.isObject with
  | false =>
    rw [flagViolations_of_not_isObject hobject, List.mem_singleton]
    simp [Reports, flagFault_iff_of_not_isObject hobject, Pointer.path]
  | true =>
    -- part by part: the faults of a field are the violations its own check lists
    rw [flagViolations_of_isObject hobject]
    simp only [List.mem_append, mem_stateViolations_iff, mem_variantsViolations_iff,
      mem_defaultViolations_iff, mem_targetingViolations_iff, mem_metadataMember_iff hascending,
      declaredVariants_eq_some_iff]
    constructor
    · rintro ((((hstate | hvariants) | hdefault) | htargeting) | hmetadata)
      · obtain ⟨⟨henabled, hdisabled⟩, rfl⟩ := hstate
        exact ⟨_, _, .state hobject henabled hdisabled, rfl⟩
      · obtain ⟨hempty, rfl⟩ | ⟨hnone, rfl⟩ := hvariants
        · exact ⟨_, _, .noVariant hempty, rfl⟩
        · exact ⟨_, _, .variants hobject hnone, rfl⟩
      · obtain ⟨name, declared, ⟨hvariants, hne⟩, hdefault, hname, rfl⟩ |
          ⟨⟨v, hdefault, hnull, htext⟩, rfl⟩ := hdefault
        · exact ⟨_, _, .undeclared hvariants hne hdefault hname, rfl⟩
        · exact ⟨_, _, .defaultVariant hdefault hnull htext, rfl⟩
      · obtain ⟨⟨v, htargeting, hnull, hv⟩, rfl⟩ := htargeting
        exact ⟨_, _, .targeting htargeting hnull hv, rfl⟩
      · obtain ⟨metadata, place, message, hmetadata, hfault, rfl⟩ := hmetadata
        exact ⟨_, _, .metadata hmetadata hfault, rfl⟩
    · rintro ⟨place, message, hfault, rfl⟩
      cases hfault with
      | shape h => rw [hobject] at h; cases h
      | state _ henabled hdisabled => exact .inl (.inl (.inl (.inl ⟨⟨henabled, hdisabled⟩, rfl⟩)))
      | variants _ hvariants => exact .inl (.inl (.inl (.inr (.inr ⟨hvariants, rfl⟩))))
      | noVariant h => exact .inl (.inl (.inl (.inr (.inl ⟨h, rfl⟩))))
      | undeclared hvariants hne h hname =>
        exact .inl (.inl (.inr (.inl ⟨_, _, ⟨hvariants, hne⟩, h, hname, rfl⟩)))
      | defaultVariant h hnull htext => exact .inl (.inl (.inr (.inr ⟨⟨_, h, hnull, htext⟩, rfl⟩)))
      | targeting h hnull hv => exact .inl (.inr ⟨⟨_, h, hnull, hv⟩, rfl⟩)
      | metadata h hfault => exact .inr ⟨_, _, _, h, hfault, rfl⟩

/-! ### The parts of a document -/

theorem flagsViolations_of_not_isObject (h : v.isObject = false) :
    flagsViolations (some v) = [⟨Pointer.path ["flags"], "must be an object"⟩] := by
  cases v with
  | obj members => cases h
  | _ => rfl

theorem fragmentsViolations_of_not_isObject (h : v.isObject = false) :
    fragmentsViolations (some v) = [⟨Pointer.path ["$evaluators"], "must be an object"⟩] := by
  cases v with
  | obj members => cases h
  | _ => rfl

/-- The violations of a flag among others. -/
theorem mem_flagViolations_key_iff (hascending : All (OnMembers Ascending) flag) (key : String) :
    x ∈ flagViolations ("/flags/" ++ key) flag ↔ ∃ place message, FlagFault flag place message ∧
      x = ⟨Pointer.path ("flags" :: key :: place), message⟩ := by
  have hpath : "/flags/" ++ key = "" ++ Pointer.path ["flags", key] := by
    rw [String.empty_append, Pointer.path_pair]
    rfl
  rw [hpath, mem_flagViolations_iff hascending, reports_below_iff]
  simp only [String.empty_append, List.cons_append, List.nil_append]

/-- The flags that are an object have the faults of each of them. -/
theorem mem_flagsViolations_obj_iff {flags : List (String × Json)}
    (hascending : All (OnMembers Ascending) (obj flags)) :
    x ∈ flagsViolations (some (obj flags)) ↔ ∃ key flag place message,
      (obj flags).member? key = some flag ∧ FlagFault flag place message ∧
        x = ⟨Pointer.path ("flags" :: key :: place), message⟩ := by
  have hmember {key : String} {flag : Json} :
      (key, flag) ∈ flags ↔ (obj flags).member? key = some flag :=
    (onMembers_obj.mp hascending.self).mem_iff
  rw [flagsViolations, List.mem_flatMap]
  constructor
  · rintro ⟨⟨key, flag⟩, hmem, hx⟩
    have hflag := all_member? hascending (hmember.mp hmem)
    obtain ⟨place, message, hfault, rfl⟩ := (mem_flagViolations_key_iff hflag key).mp hx
    exact ⟨key, flag, place, message, hmember.mp hmem, hfault, rfl⟩
  · rintro ⟨key, flag, place, message, hvalue, hfault, rfl⟩
    have hflag := all_member? hascending hvalue
    exact ⟨(key, flag), hmember.mpr hvalue,
      (mem_flagViolations_key_iff hflag key).mpr ⟨place, message, hfault, rfl⟩⟩

theorem mem_flagsViolations_iff (hascending : ∀ v, o = some v → All (OnMembers Ascending) v) :
    x ∈ flagsViolations o ↔ o = none ∧ x = ⟨Pointer.path ["flags"], "is required"⟩ ∨
      (∃ v, o = some v ∧ v.isObject = false ∧ x = ⟨Pointer.path ["flags"], "must be an object"⟩) ∨
      ∃ flags key flag place message, o = some flags ∧ flags.member? key = some flag ∧
        FlagFault flag place message ∧ x = ⟨Pointer.path ("flags" :: key :: place), message⟩ := by
  rcases o with - | v
  · simp [flagsViolations, Pointer.path_singleton]
  cases hobject : v.isObject with
  | false =>
    rw [flagsViolations_of_not_isObject hobject]
    simp [hobject, member?_of_not_isObject hobject]
  | true =>
    obtain ⟨flags, rfl⟩ := exists_of_isObject hobject
    rw [mem_flagsViolations_obj_iff (hascending _ rfl)]
    simp [hobject]

/-- The fragments that are an object have the faults of each of them. -/
theorem mem_fragmentsViolations_obj_iff {fragments : List (String × Json)}
    (hascending : Ascending fragments) :
    x ∈ fragmentsViolations (some (obj fragments)) ↔ ∃ name v,
      (obj fragments).member? name = some v ∧ v.isObject = false ∧
        x = ⟨Pointer.path ["$evaluators", name], "fragment must be an object"⟩ := by
  have hpath (name : String) : "/$evaluators/" ++ name = Pointer.path ["$evaluators", name] := by
    rw [Pointer.path_pair]
    rfl
  rw [fragmentsViolations, List.mem_filterMap]
  simp only [Option.ite_none_left_eq_some, Option.some.injEq, Bool.not_eq_true, hpath]
  constructor
  · rintro ⟨⟨name, v⟩, hmem, hobject, rfl⟩
    exact ⟨name, v, hascending.mem_iff.mp hmem, hobject, rfl⟩
  · rintro ⟨name, v, hvalue, hobject, rfl⟩
    exact ⟨(name, v), hascending.mem_iff.mpr hvalue, hobject, rfl⟩

theorem mem_fragmentsViolations_iff (hascending : ∀ v, o = some v → OnMembers Ascending v) :
    x ∈ fragmentsViolations o ↔
      (∃ v, o = some v ∧ v.isObject = false ∧ x = ⟨Pointer.path ["$evaluators"], "must be an object"⟩) ∨
      ∃ fragments name v, o = some fragments ∧ fragments.member? name = some v ∧ v.isObject = false ∧
        x = ⟨Pointer.path ["$evaluators", name], "fragment must be an object"⟩ := by
  rcases o with - | v
  · simp [fragmentsViolations]
  cases hobject : v.isObject with
  | false =>
    rw [fragmentsViolations_of_not_isObject hobject]
    simp [hobject, member?_of_not_isObject hobject]
  | true =>
    obtain ⟨fragments, rfl⟩ := exists_of_isObject hobject
    rw [mem_fragmentsViolations_obj_iff (onMembers_obj.mp (hascending _ rfl))]
    simp [hobject]

/-- What is wrong with the parts of an object. -/
theorem violations_of_isObject (h : document.isObject = true) :
    violations document = flagsViolations (document.member? "flags") ++
      fragmentsViolations (document.member? "$evaluators") ++
      match document.member? "metadata" with
      | some metadata => metadataViolations ("" ++ Pointer.path ["metadata"]) metadata
      | none => [] := by
  cases document with
  | obj members => rfl
  | _ => cases h

theorem violations_of_not_isObject (h : document.isObject = false) :
    violations document = [⟨"", "document must be an object"⟩] := by
  cases document with
  | obj members => cases h
  | _ => rfl

theorem fault_iff_of_not_isObject {place : List String} {message : String}
    (h : document.isObject = false) :
    Fault document place message ↔ place = [] ∧ message = "document must be an object" := by
  have hnone := member?_of_not_isObject h
  constructor
  · intro hfault
    cases hfault <;> simp_all
  · rintro ⟨rfl, rfl⟩
    exact .shape h

/-- **The violations of a document report its faults**, all of them. -/
theorem mem_violations_iff (hascending : All (OnMembers Ascending) document) :
    x ∈ violations document ↔ ∃ place, Fault document place x.message ∧ x.path = Pointer.path place := by
  cases hobject : document.isObject with
  | false =>
    obtain ⟨path, message⟩ := x
    rw [violations_of_not_isObject hobject, List.mem_singleton]
    simp [fault_iff_of_not_isObject hobject, Pointer.path, and_comm]
  | true =>
    rw [violations_of_isObject hobject, List.mem_append, List.mem_append,
      mem_flagsViolations_iff fun v => all_member? hascending,
      mem_fragmentsViolations_iff fun v h => (all_member? hascending h).self,
      mem_metadataMember_iff hascending]
    simp only [String.empty_append]
    constructor
    · rintro ((hflags | hfragments) | hmetadata)
      · obtain ⟨hnone, rfl⟩ | ⟨v, hv, hv', rfl⟩ |
          ⟨flags, key, flag, place, message, hflags, hflag, hfault, rfl⟩ := hflags
        · exact ⟨_, .noFlags hobject hnone, rfl⟩
        · exact ⟨_, .flags hv hv', rfl⟩
        · exact ⟨_, .flag hflags hflag hfault, rfl⟩
      · obtain ⟨v, hv, hv', rfl⟩ | ⟨fragments, name, v, hfragments, hv, hv', rfl⟩ := hfragments
        · exact ⟨_, .fragments hv hv', rfl⟩
        · exact ⟨_, .fragment hfragments hv hv', rfl⟩
      · obtain ⟨metadata, place, message, hmetadata, hfault, rfl⟩ := hmetadata
        exact ⟨_, .metadata hmetadata hfault, rfl⟩
    · rintro ⟨place, hfault, hpath⟩
      obtain ⟨path, message⟩ := x
      obtain rfl : path = _ := hpath
      cases hfault with
      | shape h => rw [hobject] at h; cases h
      | noFlags _ h => exact .inl (.inl (.inl ⟨h, rfl⟩))
      | flags h hv => exact .inl (.inl (.inr (.inl ⟨_, h, hv, rfl⟩)))
      | flag h hflag hfault => exact .inl (.inl (.inr (.inr ⟨_, _, _, _, _, h, hflag, hfault, rfl⟩)))
      | fragments h hv => exact .inl (.inr (.inl ⟨_, h, hv, rfl⟩))
      | fragment h hfragment hv => exact .inl (.inr (.inr ⟨_, _, _, h, hfragment, hv, rfl⟩))
      | metadata h hfault => exact .inr ⟨_, _, _, h, hfault, rfl⟩

end Reports

/-! ## Places -/

section Places

variable {v flag document : Json} {place : List String} {message : String}

/-- **The places of required members.** -/
inductive IsRequired : List String → Prop
  | flags : IsRequired ["flags"]
  | state (key : String) : IsRequired ["flags", key, "state"]
  | variants (key : String) : IsRequired ["flags", key, "variants"]

/-- **A pointer leads to a place**: to the value there or, where a required member is missing, with all
but its last name to the object that lacks it. -/
inductive LeadsTo (document : Json) : String → List String → Prop
  | value {pointer : String} {place : List String} {v : Json}
      (hplace : place.foldlM member? document = some v)
      (hpointer : Pointer.resolve? document pointer = some v) : LeadsTo document pointer place
  | missing {above key : String} {names : List String} {members : List (String × Json)}
      (hrequired : IsRequired (names ++ [key]))
      (hplace : names.foldlM member? document = some (.obj members))
      (hpointer : Pointer.resolve? document above = some (.obj members))
      (hkey : valueAt? key members = none) : LeadsTo document (above ++ "/" ++ key) (names ++ [key])

/-- A member is there, or is missing in an object. -/
theorem member_cases (h : v.isObject = true) (key : String) :
    (∃ w, [key].foldlM member? v = some w) ∨ ∃ members, v = .obj members ∧ valueAt? key members = none := by
  cases v with
  | obj members =>
    cases hkey : valueAt? key members with
    | none => exact .inr ⟨members, rfl, hkey⟩
    | some w => exact .inl ⟨w, by simp [member?, members?, hkey]⟩
  | _ => cases h

theorem foldlM_member?_cons {key : String} {w u : Json} (h : v.member? key = some w)
    (hplace : place.foldlM member? w = some u) : (key :: place).foldlM member? v = some u :=
  Option.bind_eq_some_iff.mpr ⟨w, h, hplace⟩

theorem MetadataFault.exists_value (h : MetadataFault v place message) :
    ∃ w, place.foldlM member? v = some w := by
  cases h with
  | shape => exact ⟨v, rfl⟩
  | entry h => exact ⟨_, foldlM_member?_cons h rfl⟩

/-- **The place of a fault of a flag** is in it, or is that of a member it should have. -/
theorem FlagFault.place_cases (h : FlagFault flag place message) :
    (∃ w, place.foldlM member? flag = some w) ∨ ∃ key members, place = [key] ∧
      (key = "state" ∨ key = "variants") ∧ flag = .obj members ∧ valueAt? key members = none := by
  cases h with
  | shape => exact .inl ⟨flag, rfl⟩
  | state h =>
    exact (member_cases h "state").imp_right fun ⟨members, hflag, hkey⟩ =>
      ⟨_, members, rfl, .inl rfl, hflag, hkey⟩
  | variants h =>
    exact (member_cases h "variants").imp_right fun ⟨members, hflag, hkey⟩ =>
      ⟨_, members, rfl, .inr rfl, hflag, hkey⟩
  | noVariant h => exact .inl ⟨_, foldlM_member?_cons h rfl⟩
  | undeclared _ _ h => exact .inl ⟨_, foldlM_member?_cons h rfl⟩
  | defaultVariant h => exact .inl ⟨_, foldlM_member?_cons h rfl⟩
  | targeting h => exact .inl ⟨_, foldlM_member?_cons h rfl⟩
  | metadata h hfault =>
    obtain ⟨w, hw⟩ := hfault.exists_value
    exact .inl ⟨w, foldlM_member?_cons h hw⟩

/-- **The place of a fault** is in the document, or is that of a required member. -/
theorem Fault.place_cases (h : Fault document place message) :
    (∃ w, place.foldlM member? document = some w) ∨ ∃ names key members, place = names ++ [key] ∧
      IsRequired place ∧ names.foldlM member? document = some (.obj members) ∧
        valueAt? key members = none := by
  cases h with
  | shape => exact .inl ⟨document, rfl⟩
  | noFlags h hnone =>
    obtain ⟨w, hw⟩ | ⟨members, rfl, hkey⟩ := member_cases h "flags"
    · exact .inl ⟨w, hw⟩
    · exact .inr ⟨[], _, members, rfl, .flags, rfl, hkey⟩
  | flags h => exact .inl ⟨_, foldlM_member?_cons h rfl⟩
  | flag h hflag hfault =>
    obtain ⟨w, hw⟩ | ⟨name, members, rfl, hname, rfl, hkey⟩ := hfault.place_cases
    · exact .inl ⟨w, foldlM_member?_cons h (foldlM_member?_cons hflag hw)⟩
    · refine .inr ⟨["flags", _], name, members, rfl, ?_,
        foldlM_member?_cons h (foldlM_member?_cons hflag rfl), hkey⟩
      obtain rfl | rfl := hname
      · exact .state _
      · exact .variants _
  | fragments h => exact .inl ⟨_, foldlM_member?_cons h rfl⟩
  | fragment h hfragment => exact .inl ⟨_, foldlM_member?_cons h (foldlM_member?_cons hfragment rfl)⟩
  | metadata h hfault =>
    obtain ⟨w, hw⟩ := hfault.exists_value
    exact .inl ⟨w, foldlM_member?_cons h hw⟩

/-- The keys of a place lead to it if they are plain. -/
theorem Fault.leadsTo (h : Fault document place message)
    (hplain : ∀ key ∈ place, Pointer.IsPlain key) : LeadsTo document (Pointer.path place) place := by
  obtain ⟨w, hw⟩ | ⟨names, key, members, rfl, hrequired, hnames, hkey⟩ := h.place_cases
  · exact .value hw (Pointer.resolve?_path hplain hw)
  · have hnamesPlain : ∀ name ∈ names, Pointer.IsPlain name := fun name hname =>
      hplain name (List.mem_append_left _ hname)
    rw [Pointer.path_append, Pointer.path_singleton, ← String.append_assoc]
    exact .missing hrequired hnames (Pointer.resolve?_path hnamesPlain hnames) hkey

end Places

/-- **A violation is reported at a place**: there is its fault, and its path has the keys of the place. -/
structure ReportedAt (document : Json) (x : Violation) (place : List String) : Prop where
  fault : Fault document place x.message
  path : x.path = Pointer.path place

/-- **Where the path of a violation leads.**  What is reported are the faults of the document, each at
its place.  The path of a violation is a pointer that reads as the keys of its place exactly if these are
plain, without slashes and tildes.  Then it leads to the place, and of violations at such places those at
different ones have different paths. -/
theorem path_points_iff {document : Json} (hascending : All (OnMembers Ascending) document) :
    (∀ x, x ∈ violations document ↔ ∃ place, ReportedAt document x place) ∧
      (∀ x place, ReportedAt document x place →
        (Pointer.tokens? x.path = some place ↔ ∀ key ∈ place, Pointer.IsPlain key) ∧
          ((∀ key ∈ place, Pointer.IsPlain key) → LeadsTo document x.path place)) ∧
      ∀ x place y other, ReportedAt document x place → ReportedAt document y other →
        (∀ key ∈ place, Pointer.IsPlain key) → (∀ key ∈ other, Pointer.IsPlain key) →
          (x.path = y.path ↔ place = other) := by
  have hreads {x : Violation} {place : List String} (h : ReportedAt document x place) :
      Pointer.tokens? x.path = some place ↔ ∀ key ∈ place, Pointer.IsPlain key := by
    rw [Pointer.tokens?_eq_some_iff, h.path, Pointer.path_eq_ofTokens_iff]
  refine ⟨fun x => ?_, fun x place h => ⟨hreads h, fun hplain => ?_⟩, ?_⟩
  · rw [mem_violations_iff hascending]
    exact exists_congr fun place => ⟨fun ⟨hfault, hpath⟩ => ⟨hfault, hpath⟩, fun h => ⟨h.fault, h.path⟩⟩
  · rw [h.path]
    exact h.fault.leadsTo hplain
  · intro x place y other hx hy hplain hplain'
    constructor
    · intro h
      have hplace := (hreads hx).mpr hplain
      rw [h, (hreads hy).mpr hplain'] at hplace
      exact (Option.some.inj hplace).symm
    · rintro rfl
      rw [hx.path, hy.path]

/-- A flag without a state. -/
def stateless : Json :=
  .obj [("flags", .obj [("on", .obj [("variants", .obj [("a", .bool true)])])])]

theorem path_points_iff_stateless :
    All (OnMembers Ascending) stateless ∧
      ⟨"/flags/on/state", "must be ENABLED or DISABLED"⟩ ∈ violations stateless ∧
        LeadsTo stateless "/flags/on/state" ["flags", "on", "state"] := by
  have hascending : All (OnMembers Ascending) stateless := by decide
  have hmem : ⟨"/flags/on/state", "must be ENABLED or DISABLED"⟩ ∈ violations stateless := by decide
  have hfault : FlagFault (.obj [("variants", .obj [("a", .bool true)])]) ["state"]
      "must be ENABLED or DISABLED" := .state rfl nofun nofun
  refine ⟨hascending, hmem, ((path_points_iff hascending).2.1 ⟨_, "must be ENABLED or DISABLED"⟩ _
    ⟨.flag rfl rfl hfault, ?_⟩).2 ?_⟩
  · decide
  · decide

/-- Slashes in a key of a flag and in one of an annotation: two faults in two places have one path. -/
def slashed : Json :=
  .obj [("flags", .obj [
    ("a", .obj [("metadata", .obj [("x/metadata/y", .null)]), ("state", .str "ENABLED"),
      ("variants", .obj [("on", .bool true)])]),
    ("a/metadata/x", .obj [("metadata", .obj [("y", .null)]), ("state", .str "ENABLED"),
      ("variants", .obj [("on", .bool true)])])])]

example : violations slashed =
    [⟨"/flags/a/metadata/x/metadata/y", "metadata values must be scalars"⟩,
      ⟨"/flags/a/metadata/x/metadata/y", "metadata values must be scalars"⟩] := by decide

end FeatureFlags.Schema
