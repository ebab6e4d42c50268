import FeatureFlags.Proofs.Collections.Results
import FeatureFlags.Proofs.Document.Decoding
import FeatureFlags.Proofs.Document.Parsing

/-!
# Proofs/Document/Shape — a document of the right shape has a table

The checks of `Schema.violations` and the decoders of the fields are written apart from each other.
They agree: where no violation is found each field decodes (`Schema.exists_decode`), the whole document
does (`Document.exists_decode`), and its flags can be served (`Flag.IsServable`).

A text without the characters of a reference has the table of its document, whatever fragments it
declares, unless one of them is refused for its name (`Document.parse_of_free`).
-/

namespace FeatureFlags

open Json

/-- **A flag that can be served**: it has variants, and its default is one of them if there is one. -/
structure Flag.IsServable (f : Flag) : Prop where
  variants : f.variants.isEmpty = false
  default : f.defaultVariant ≠ "" → (f.variant? f.defaultVariant).isSome

/-! ## Fields -/

namespace Schema

variable {path name : String} {o : Option Json} {v : Json}

theorem exists_state (h : stateViolations path o = []) :
    ∃ state, decodeField FlagState.decode o = .ok (some state) := by
  rw [stateViolations.eq_def] at h
  split at h
  · exact ⟨.enabled, rfl⟩
  · exact ⟨.disabled, rfl⟩
  · cases h

theorem exists_variants (h : variantsViolations path o = []) :
    ∃ first rest, o = some (.obj (first :: rest)) := by
  rw [variantsViolations.eq_def] at h
  split at h
  · cases h
  · next declared hsome =>
    obtain ⟨first, rest, rfl⟩ := List.exists_cons_of_ne_nil (show declared ≠ [] from fun hnil =>
      hsome (by rw [hnil]))
    exact ⟨first, rest, rfl⟩
  · cases h

theorem exists_default {declared : List (String × Json)}
    (h : defaultViolations path (some declared) o = []) :
    ∃ found, decodeField decodeOptionalText o = .ok found ∧
      ∀ name, found = some (some name) → (valueAt? name declared).isSome := by
  rw [defaultViolations.eq_def] at h
  split at h
  · exact ⟨none, rfl, nofun⟩
  · exact ⟨some none, rfl, nofun⟩
  · next name =>
    simp only at h
    split at h
    · next hdeclared =>
      refine ⟨some (some name), rfl, ?_⟩
      rintro _ ⟨⟩
      exact hdeclared
    · cases h
  · cases h

/-- What may be an annotation has a metadata form. -/
theorem exists_scalar (h : isScalar v = true) : ∃ s, Scalar.decode? v = some s := by
  rw [decode?_eq_ofJson?]
  cases v with
  | bool b => exact ⟨_, rfl⟩
  | num n => exact ⟨_, rfl⟩
  | str s => exact ⟨_, rfl⟩
  | _ => cases h

theorem isScalar_of_metadataViolations {members : List (String × Json)}
    (h : metadataViolations path (.obj members) = []) : ∀ m ∈ members, isScalar m.2 = true := by
  intro m hm
  have hnone := List.filterMap_eq_nil_iff.mp h m hm
  by_contra hscalar
  simp [hscalar] at hnone

/-- Entries that all decode decode together, under the keys they have. -/
theorem exists_mapM {α β ε : Type} {entries : List (String × α)}
    {decode : String × α → Except ε (String × β)} {P : β → Prop}
    (h : ∀ e ∈ entries, ∃ b, decode e = .ok (e.1, b) ∧ P b) :
    ∃ decoded, entries.mapM decode = .ok decoded ∧ decoded.map (·.1) = entries.map (·.1) ∧
      ∀ d ∈ decoded, P d.2 := by
  induction entries with
  | nil => exact ⟨[], rfl, rfl, nofun⟩
  | cons e rest ih =>
    obtain ⟨⟨b, hb, hgood⟩, hrest⟩ := List.forall_mem_cons.mp h
    obtain ⟨decoded, hdecoded, hkeys, hall⟩ := ih hrest
    refine ⟨(e.1, b) :: decoded, ?_, ?_, List.forall_mem_cons.mpr ⟨hgood, hall⟩⟩
    · rw [List.mapM_cons, hb, hdecoded]
      rfl
    · rw [List.map_cons, List.map_cons, hkeys]

theorem exists_metadata (h : metadataViolations path v = []) :
    ∃ metadata, Metadata.decode v = .ok metadata := by
  cases v with
  | obj members =>
    have hscalars : ∀ m ∈ members, ∃ s, Scalar.decode? m.2 = some s := fun m hm =>
      exists_scalar (isScalar_of_metadataViolations h m hm)
    rw [Metadata.decode]
    simp only [bind_eq_ok_iff]
    rw [exists_comm]
    refine (exists_mapM (P := fun _ => True) fun m hm => ?_).imp fun decoded h => ⟨_, h.1, rfl⟩
    obtain ⟨s, hs⟩ := hscalars m hm
    exact ⟨s, by simp only [hs], trivial⟩
  | _ => cases h

theorem exists_metadataField
    (h : (match o with | some metadata => metadataViolations path metadata | none => []) = []) :
    ∃ found, decodeField Metadata.decode o = .ok found := by
  rcases o with - | v
  · exact ⟨none, rfl⟩
  · obtain ⟨metadata, hmetadata⟩ := exists_metadata h
    exact ⟨some metadata, by rw [decodeField, hmetadata]; rfl⟩

/-- **A flag without faults decodes**, and can be served. -/
theorem exists_decode (hascending : All (OnMembers Ascending) v) (h : flagViolations path v = []) :
    ∃ flag, Flag.decode v = .ok flag ∧ flag.IsServable := by
  cases v with
  | obj members =>
    simp only [flagViolations, List.append_eq_nil_iff] at h
    obtain ⟨⟨⟨⟨hstate, hvariants⟩, hdefault⟩, -⟩, hmetadata⟩ := h
    obtain ⟨state, hstate⟩ := exists_state hstate
    obtain ⟨first, rest, hvariants⟩ := exists_variants hvariants
    rw [hvariants, declaredVariants] at hdefault
    obtain ⟨default, hdefault, hdeclared⟩ := exists_default hdefault
    obtain ⟨metadata, hmetadata⟩ := exists_metadataField hmetadata
    have hentries := KeyMap.entries_ofList (onMembers_obj.mp
      ((all_obj.mp hascending).2 _ (mem_of_valueAt? hvariants)).self)
    refine ⟨⟨state, (default.getD none).getD "", KeyMap.ofList (first :: rest),
      Flag.ruleOf (valueAt? "targeting" members), metadata.getD ∅⟩, ?_, ?_, ?_⟩
    · rw [Flag.decode, Flag.decodeMembers]
      simp only [hstate, hvariants, hdefault, hmetadata]
      rfl
    · rw [KeyMap.isEmpty, hentries]
      rfl
    · intro hne
      rw [Flag.variant?, KeyMap.get?, hentries]
      rcases default with - | - | name
      · exact absurd rfl hne
      · exact absurd rfl hne
      · exact hdeclared name rfl
  | _ => cases h

/-- **A document without faults** has an object of flags, each without faults, and fragments that are
objects. -/
theorem exists_flags {document : Json} (h : violations document = []) :
    ∃ members flags, document = .obj members ∧ valueAt? "flags" members = some (.obj flags) ∧
      (∀ f ∈ flags, flagViolations ("/flags/" ++ f.1) f.2 = []) ∧
        fragmentsViolations (valueAt? "$evaluators" members) = [] := by
  cases document with
  | obj members =>
    simp only [violations, List.append_eq_nil_iff] at h
    obtain ⟨⟨hflags, hfragments⟩, -⟩ := h
    rw [flagsViolations.eq_def] at hflags
    split at hflags
    · next flags hfound =>
      exact ⟨members, flags, rfl, hfound, List.flatMap_eq_nil_iff.mp hflags, hfragments⟩
    · cases hflags
    · cases hflags
  | _ => cases h

/-- Fragments without faults are objects. -/
theorem isObject_of_fragmentsViolations {fragments : List (String × Json)}
    (h : fragmentsViolations (some (.obj fragments)) = []) : ∀ f ∈ fragments, f.2.isObject = true := by
  intro f hf
  have hnone := List.filterMap_eq_nil_iff.mp h f hf
  by_contra hobject
  simp [hobject] at hnone

end Schema

namespace Document

open Fragments

variable {document : Json}

/-- **A document without faults has a table**, with its keys, of flags that can be served. -/
theorem exists_decode (hascending : All (OnMembers Ascending) document)
    (h : Schema.violations document = []) :
    ∃ flags table, document.member? "flags" = some (.obj flags) ∧ decode document = .ok table ∧
      table.flags.keys = flags.map (·.1) ∧
        ∀ key flag, table.get? key = some flag → flag.IsServable := by
  obtain ⟨members, flags, rfl, hfound, hflags, -⟩ := Schema.exists_flags h
  have hpart := (all_obj.mp hascending).2 _ (mem_of_valueAt? hfound)
  have heach : ∀ f ∈ flags, ∃ flag, decodeFlag f = .ok (f.1, flag) ∧ flag.IsServable := by
    intro f hf
    obtain ⟨flag, hflag, hservable⟩ := Schema.exists_decode ((all_obj.mp hpart).2 f hf) (hflags f hf)
    exact ⟨flag, by rw [decodeFlag, hflag], hservable⟩
  obtain ⟨decoded, hdecoded, hkeys, hgood⟩ := Schema.exists_mapM heach
  have hdecodedAscending : Ascending decoded := by
    have hflagsAscending : (flags.map (·.1)).Pairwise (· < ·) :=
      List.pairwise_map.mpr (onMembers_obj.mp hpart.self)
    rw [← hkeys] at hflagsAscending
    exact List.pairwise_map.mp hflagsAscending
  have hentries := KeyMap.entries_ofList hdecodedAscending
  refine ⟨flags, ⟨KeyMap.ofList decoded, decodeMetadata ((obj members).member? "metadata")⟩, hfound,
    ?_, ?_, ?_⟩
  · rw [decode, show (obj members).member? "flags" = _ from hfound]
    simp only [hdecoded]
    rfl
  · rw [KeyMap.keys, hentries, hkeys]
  · intro key flag hflag
    rw [FlagSet.get?, KeyMap.get?, hentries] at hflag
    exact hgood _ (mem_of_valueAt? hflag)

/-! ## Texts without references -/

section Free

variable {name body cs : List Char}

/-- **A text is free of references**: the characters that begin the key of one do not occur. -/
def IsFree (cs : List Char) : Prop := ¬ ['$', 'r', 'e', 'f'] <:+: cs

instance (cs : List Char) : Decidable (IsFree cs) := inferInstanceAs (Decidable (¬ _ <:+: _))

theorem IsFree.tail {c : Char} (h : IsFree (c :: cs)) : IsFree cs := fun hwithin =>
  h (hwithin.trans (List.suffix_cons c cs).isInfix)

theorem IsFree.dropReference? (h : IsFree cs) : dropReference? name cs = none := by
  refine Option.eq_none_iff_forall_ne_some.mpr fun rest hsome => h ?_
  obtain ⟨behindKey, -, rfl, -, -⟩ := dropReference?_eq_some_iff.mp hsome
  exact ⟨['"'], '"' :: behindKey, rfl⟩

theorem IsFree.replace (h : IsFree cs) : replace name body cs = cs := by
  rw [Fragments.replace]
  induction cs with
  | nil => rfl
  | cons c cs ih => rw [replaceFrom_cons h.dropReference?, ih h.tail]

theorem IsFree.substitute (h : IsFree cs) {refusal? : String → Option String}
    {fragments : List (String × List (String × Json))} (hcompile : Compile refusal? fragments) :
    substitute refusal? (objects fragments) cs = .ok cs := by
  induction fragments with
  | nil => rfl
  | cons f rest ih =>
    obtain ⟨hname, hrest⟩ := compile_cons.mp hcompile
    refine (substitute_cons hname _ _ _).trans ?_
    rw [h.replace, ← objects, ih hrest]

end Free

/-- **Without references the document stays as it is**, whatever fragments it declares, unless one of them
is refused for its name. -/
theorem resolve_of_free {cs : List Char} {members : List (String × Json)} (hfree : IsFree cs)
    (hread : readText cs = .ok (obj members))
    (hfragments : Schema.fragmentsViolations (valueAt? "$evaluators" members) = [])
    (refusal? : String → Option String) :
    resolve refusal? cs (obj members) members =
      (refused? refusal? (declared (obj members))).elim (.ok (obj members))
        (.error <| .badFragment ·) := by
  by_cases hnone : declared (obj members) = []
  · rw [resolve_of_declared_nil hnone, hnone]
    rfl
  · obtain ⟨found, hfound⟩ := exists_of_declared_ne_nil hnone
    rw [show valueAt? "$evaluators" members = _ from hfound] at hfragments
    obtain ⟨fragments, rfl⟩ :=
      exists_objects (Schema.isObject_of_fragmentsViolations hfragments)
    have hdeclared := declared_of_member? hfound
    rw [hdeclared]
    cases hrefused : refused? refusal? (objects fragments) with
    | none =>
      rw [resolve_of_substitute hnone (hdeclared ▸ hfree.substitute (compile_of_refused? hrefused)),
        hread]
      rfl
    | some bad => exact resolve_of_refused (hdeclared ▸ substitute_of_refused hrefused)

/-- **A text without references whose document has no faults** has the table of the document, however
its shape is checked, unless a fragment is refused for its name. -/
theorem parse_of_free {text : String} (parser : Parser) (hread : read? text = some document)
    (hfree : IsFree text.toList) (hshape : Schema.violations document = []) :
    parse parser text =
      (refused? parser.refusal? (declared document)).elim (decode document)
        (.error <| .badFragment ·) := by
  obtain ⟨members, -, rfl, -, -, hfragments⟩ := Schema.exists_flags hshape
  have hread : readText text.toList = .ok (obj members) := by
    rw [readText, show (Token.ofText? _).bind _ = _ from hread]
  have hcheck : checkShape parser.check (obj members) = .ok () := by
    cases parser.check with
    | strict => rw [checkShape, hshape]
    | _ => rfl
  rw [parse_of_object parser hread, hcheck, resolve_of_free hfree hread hfragments]
  cases refused? parser.refusal? (declared (obj members)) <;> rfl

end Document

end FeatureFlags
