import FeatureFlags.Proofs.Document.Decoding
import FeatureFlags.Proofs.Document.Parsing
import FeatureFlags.Proofs.Document.Precedence
import Mathlib.Logic.Equiv.Basic

/-!
# Proofs/Document/Names — what the names of fragments mean

A reference inside a fragment is resolved when the fragment it names comes later, so names do carry a
meaning: their order.  New names leave the tables of documents as they are exactly when they keep the
order of fragments that refer to each other (`Document.parse_withNames_iff`).
-/

namespace FeatureFlags

open Token

namespace Document

open Fragments Json

variable {ρ : String → String} {text : String} {w : Json} {refusal? : String → Option String}

/-! ## Declared fragments under new names -/

/-- What stands where fragments are declared, and what stands there with new keys. -/
theorem exists_declaring (w : Json) :
    ∃ o : Option Json, w.settled.member? "$evaluators" = o.map settled ∧
      ∀ ρ, (redeclared ρ w).settled.member? "$evaluators" = o.map fun v => (rekeyed ρ v).settled := by
  cases w with
  | obj members =>
    refine ⟨(members.filter (·.1 = "$evaluators")).getLast?.map (·.2), ?_, fun ρ => ?_⟩
    · change valueAt? "$evaluators" (settledMembers members []) = _
      rw [valueAt?_settledMembers, Option.map_map]
      exact Option.or_none
    · change valueAt? "$evaluators" (settledMembers (members.map (redeclaredMember ρ)) []) = _
      have hfilter : (members.map (redeclaredMember ρ)).filter (·.1 = "$evaluators") =
          (members.filter (·.1 = "$evaluators")).map (redeclaredMember ρ) := List.filter_map
      rw [valueAt?_settledMembers, hfilter, List.getLast?_map, Option.map_map, Option.map_map]
      refine Option.or_none.trans ?_
      rcases hlast : (members.filter (·.1 = "$evaluators")).getLast? with - | m
      · rw [hlast]
        rfl
      · have hkey : m.1 = "$evaluators" := by
          simpa using (List.mem_filter.mp (List.mem_of_getLast? hlast)).2
        rw [hlast]
        simp [redeclaredMember, hkey]
  | _ => exact ⟨none, rfl, fun _ => rfl⟩

/-- New keys for the fragments change nothing but the fragments. -/
theorem member?_settled_redeclared {key : String} (hkey : key ≠ "$evaluators") (w : Json) :
    (redeclared ρ w).settled.member? key = w.settled.member? key := by
  cases w with
  | obj members =>
    change valueAt? key (settledMembers (members.map (redeclaredMember ρ)) []) =
      valueAt? key (settledMembers members [])
    have hfilter : (members.map (redeclaredMember ρ)).filter (·.1 = key) =
        (members.filter (·.1 = key)).map (redeclaredMember ρ) := List.filter_map
    have hkept : (members.filter (·.1 = key)).map (redeclaredMember ρ) =
        members.filter (·.1 = key) := by
      refine (List.map_congr_left fun m hm => ?_).trans (List.map_id _)
      have hm : m.1 = key := by simpa using (List.mem_filter.mp hm).2
      rw [redeclaredMember, if_neg (hm ▸ hkey), id]
    rw [valueAt?_settledMembers, valueAt?_settledMembers, hfilter, hkept]
  | _ => rfl

theorem ascending_declared (w : Json) : Ascending (declared w.settled) := by
  by_cases hnone : declared w.settled = []
  · rw [hnone]
    exact List.Pairwise.nil
  · exact onMembers_obj.mp (all_declared (all_ascending_settled w) hnone).self

/-- **A fragment under its new name** is the fragment. -/
theorem valueAt?_declared_redeclared (hρ : Function.Injective ρ) (w : Json) (n : String) :
    valueAt? (ρ n) (declared (redeclared ρ w).settled) = valueAt? n (declared w.settled) := by
  obtain ⟨o, hold, hnew⟩ := exists_declaring w
  rw [declared, declared, hold, hnew]
  rcases o with - | v
  · rfl
  · cases v with
    | obj found =>
      change valueAt? (ρ n) (settledMembers (found.map fun m => (ρ m.1, m.2)) []) =
        valueAt? n (settledMembers found [])
      have hfilter : (found.map fun m => (ρ m.1, m.2)).filter (·.1 = ρ n) =
          (found.filter (·.1 = n)).map fun m => (ρ m.1, m.2) := by
        rw [List.filter_map]
        refine congrArg _ (List.filter_congr fun m _ => ?_)
        simp [hρ.eq_iff]
      rw [valueAt?_settledMembers, valueAt?_settledMembers, hfilter, List.getLast?_map,
        Option.map_map]
      rfl
    | _ => rfl

theorem exists_name_of_mem_declared {e : String × Json}
    (h : e ∈ declared (redeclared ρ w).settled) : ∃ n, e.1 = ρ n := by
  obtain ⟨o, -, hnew⟩ := exists_declaring w
  rw [declared, hnew] at h
  rcases o with - | v
  · cases h
  · cases v with
    | obj found =>
      rcases mem_settledMembers h with h | ⟨m, hm, rfl⟩
      · cases h
      · obtain ⟨f, -, rfl⟩ := List.mem_map.mp hm
        exact ⟨f.1, rfl⟩
    | _ => cases h

/-- **Every declared fragment is an object.** -/
def AllObjects (document : Json) : Prop := ∀ f ∈ declared document, f.2.isObject = true

theorem allObjects_redeclared (hρ : Function.Injective ρ) (w : Json) :
    AllObjects (redeclared ρ w).settled ↔ AllObjects w.settled := by
  constructor
  · rintro h ⟨n, v⟩ hf
    have hvalue := (ascending_declared w).mem_iff.mp hf
    rw [← valueAt?_declared_redeclared hρ] at hvalue
    exact h (ρ n, v) (mem_of_valueAt? hvalue)
  · rintro h ⟨key, v⟩ hf
    obtain ⟨n, hkey⟩ := exists_name_of_mem_declared hf
    obtain rfl : key = ρ n := hkey
    have hvalue := (ascending_declared _).mem_iff.mp hf
    rw [valueAt?_declared_redeclared hρ] at hvalue
    exact h (n, v) (mem_of_valueAt? hvalue)

theorem declared_renamed (document : Json) :
    declared (document.renamed ρ) =
      (declared document).map fun m => (m.1, renamedAt ρ m.1 m.2) := by
  rw [declared, declared, member?_renamed (by decide)]
  rcases document.member? "$evaluators" with - | v
  · rfl
  · cases v with
    | obj found =>
      rw [Option.map_some, renamed_obj]
    | _ => rfl

theorem isObject_renamedAt (key : String) (v : Json) :
    (renamedAt ρ key v).isObject = v.isObject := by
  rcases renamedAt_cases ρ key v with ⟨n, -, rfl, hnew⟩ | ⟨-, hnew⟩
  · rw [hnew]
    rfl
  · rw [hnew, isObject_renamed]

theorem allObjects_withNames (hρ : Function.Injective ρ) (w : Json) :
    AllObjects (withNames ρ w).settled ↔ AllObjects w.settled := by
  rw [withNames, allObjects_redeclared hρ, settled_renamed, AllObjects, AllObjects, declared_renamed,
    List.forall_mem_map]
  refine forall₂_congr ?_
  intro f _
  rw [isObject_renamedAt]

/-- What is wrong with the fragments of a document, if anything is. -/
theorem fragmentsViolations_eq_nil_iff (document : Json) :
    Schema.fragmentsViolations (document.member? "$evaluators") = [] ↔
      (∀ v, document.member? "$evaluators" = some v → v.isObject = true) ∧ AllObjects document := by
  rw [AllObjects, declared]
  rcases document.member? "$evaluators" with - | v
  · simp [Schema.fragmentsViolations]
  · cases v with
    | obj found =>
      have hisObject : (obj found).isObject = true := rfl
      simp [Schema.fragmentsViolations, List.filterMap_eq_nil_iff, hisObject]
    | _ => simp [Schema.fragmentsViolations, isObject, members?]

theorem fragmentsViolations_withNames (hρ : Function.Injective ρ) (w : Json) :
    Schema.fragmentsViolations ((withNames ρ w).settled.member? "$evaluators") = [] ↔
      Schema.fragmentsViolations (w.settled.member? "$evaluators") = [] := by
  rw [fragmentsViolations_eq_nil_iff, fragmentsViolations_eq_nil_iff, allObjects_withNames hρ]
  refine and_congr_left fun _ => ?_
  obtain ⟨o, hold, hnew⟩ := exists_declaring (w.renamed ρ)
  have hisObject (v : Json) : (rekeyed ρ v).settled.isObject = v.settled.isObject := by
    cases v <;> rfl
  have hrenamed := hold
  rw [settled_renamed, member?_renamed (by decide)] at hrenamed
  rw [withNames, hnew]
  rcases hv : w.settled.member? "$evaluators" with - | v <;> rw [hv] at hrenamed <;>
    rcases o with - | u
  · simp
  · cases hrenamed
  · cases hrenamed
  · have hsame : v.isObject = u.settled.isObject := by
      rw [← Option.some.inj hrenamed, isObject_renamed]
    simp [hisObject, hsame]

/-! ## Documents that declare each fragment once -/

/-- **Fragments are declared once**: no key of the document stands twice, and no name of a fragment. -/
structure DeclaresOnce (w : Json) : Prop where
  keys : HasDistinctKeys w
  names : OnMembers (fun members => ∀ m ∈ members, m.1 = "$evaluators" → HasDistinctKeys m.2) w

/-- Where fragments are declared once, those that are written are those that are read. -/
theorem DeclaresOnce.declaresObjects (h : DeclaresOnce w) (hobjects : AllObjects w.settled) :
    DeclaresObjects w := by
  cases w with
  | obj members =>
    refine onMembers_obj.mpr ?_
    rintro ⟨key, v⟩ hm hkey
    obtain rfl : key = "$evaluators" := hkey
    cases v with
    | obj found =>
      have hfound : (obj members).settled.member? "$evaluators" = some (obj found).settled :=
        valueAt?_settledMembers_of_mem (onMembers_obj.mp h.keys) hm
      rw [AllObjects, declared_of_member? hfound] at hobjects
      refine onMembers_obj.mpr ?_
      intro f hf
      have hvalue := valueAt?_settledMembers_of_mem
        (onMembers_obj.mp (onMembers_obj.mp h.names _ hm rfl)) hf
      rw [← isObject_settled]
      exact hobjects _ (mem_of_valueAt? hvalue)
    | _ => trivial
  | _ => trivial

/-! ## Texts of documents under new names -/

/-- With its references resolved, a document is what is read from the tokens of the text with the
references replaced. -/
theorem resolve_eq_ofTokens? {members : List (String × Json)}
    {fragments : List (String × List (String × Json))} (hread : w.settled = obj members)
    (hwritten : IsWrittenIn text w) (hplain : SpelledPlainly text w)
    (hdeclared : declared w.settled = objects fragments) (hcompile : Compile refusal? fragments) :
    resolve refusal? text.toList (obj members) members =
      (ofTokens? (substituted (resolution fragments) w.tokens)).elim (.error .notJson) .ok := by
  rcases fragments with - | ⟨f, rest⟩
  · have hnone : resolution [] = fun _ => none := rfl
    rw [resolve_of_declared_nil (hread ▸ hdeclared), hnone, substituted_none, ofTokens?_tokens,
      if_pos hwritten.depth, hread]
    rfl
  · obtain ⟨cs, hcs, htokens⟩ := hplain.substitute hdeclared hcompile
    rw [← hdeclared, hread] at hcs
    rw [resolve_of_substitute (by rw [← hread, hdeclared]; simp [objects]) hcs, readText, htokens,
      Option.bind_some]
    rcases ofTokens? (substituted (resolution (f :: rest)) w.tokens) with - | v <;> rfl

/-- A fragment that is no object is refused for that. -/
theorem exists_substitute_eq_error {found : List (String × Json)}
    (hnames : ∀ f ∈ found, refusal? f.1 = none) (h : ¬ ∀ f ∈ found, f.2.isObject = true) :
    ∃ name, ∀ cs, substitute refusal? found cs = .error ⟨name, "fragment must be an object"⟩ := by
  induction found with
  | nil => exact absurd (fun _ hf => nomatch hf) h
  | cons f rest ih =>
    obtain ⟨name, v⟩ := f
    obtain ⟨hname, hrest⟩ := List.forall_mem_cons.mp hnames
    cases v with
    | obj members =>
      obtain ⟨bad, hbad⟩ := ih hrest fun hall => h (List.forall_mem_cons.mpr ⟨rfl, hall⟩)
      exact ⟨bad, fun cs => (substitute_cons hname members rest cs).trans (hbad _)⟩
    | _ => exact ⟨name, fun cs => rfl⟩

/-- A document with a fragment that is no object is refused for that. -/
theorem exists_badFragment {members : List (String × Json)} (hread : w.settled = obj members)
    (hnames : ∀ f ∈ declared w.settled, refusal? f.1 = none) (h : ¬ AllObjects w.settled)
    (cs : List Char) :
    ∃ name, resolve refusal? cs (obj members) members =
      .error (.badFragment ⟨name, "fragment must be an object"⟩) := by
  obtain ⟨name, hname⟩ := exists_substitute_eq_error hnames h
  exact ⟨name, resolve_of_refused (hread ▸ hname)⟩

/-- **Two texts write one document**, the first as it is and the second under new names, both with
references spelled plainly and fragments declared once. -/
structure WriteRenamed (ρ : String → String) (w : Json) (first second : String) : Prop where
  written : IsWrittenIn first w
  written' : IsWrittenIn second (withNames ρ w)
  plain : SpelledPlainly first w
  plain' : SpelledPlainly second (withNames ρ w)
  once : DeclaresOnce w

/-- **Patterns compile** for the references to each fragment, under its old name and its new one. -/
def CompileRenamed (refusal? : String → Option String) (ρ : String → String) (w : Json) : Prop :=
  ∀ f ∈ declared w.settled, refusal? f.1 = none ∧ refusal? (ρ f.1) = none

/-- **Fragments refer to each other** along the given links only. -/
def RefersAlong (links : String → String → Prop) (w : Json) : Prop :=
  ∀ f ∈ declared w.settled,
    All (HasReferences fun n => n ∈ (declared w.settled).map (·.1) → links f.1 n) f.2

section Renamed

variable {first second : String} {fragments others : List (String × List (String × Json))}

theorem isObject_withNames (w : Json) : (withNames ρ w).settled.isObject = w.settled.isObject := by
  rw [isObject_settled, isObject_settled, withNames, isObject_redeclared, isObject_renamed]

theorem ascending_of_objects (h : Ascending (objects fragments)) : Ascending fragments := by
  rw [Ascending, objects, List.pairwise_map] at h
  exact h

/-- A fragment under its new name is the fragment under new names. -/
theorem valueAt?_others (hρ : Function.Injective ρ) (hold : declared w.settled = objects fragments)
    (hnew : declared (withNames ρ w).settled = objects others) (n : String) :
    valueAt? (ρ n) others =
      (valueAt? n fragments).map (List.map fun m => (m.1, renamedAt ρ m.1 m.2)) := by
  have hobject (name : String) (fragments : List (String × List (String × Json))) :
      valueAt? name (objects fragments) = (valueAt? name fragments).map obj :=
    valueAt?_map (fun _ => obj) name fragments
  have hvalue := valueAt?_declared_redeclared hρ (w.renamed ρ) n
  rw [← withNames, hnew, settled_renamed, declared_renamed, hold, valueAt?_map (renamedAt ρ),
    hobject, hobject] at hvalue
  rcases hfound : valueAt? n fragments with - | members <;>
    rcases hother : valueAt? (ρ n) others with - | members' <;> rw [hfound, hother] at hvalue
  · rfl
  · cases hvalue
  · cases hvalue
  · have hbody : renamedAt ρ n (obj members) = (obj members).renamed ρ := by
      rw [renamedAt, reference?_of_isObject rfl]
      rfl
    simp only [Option.map_some, Option.some.injEq, hbody, renamed_obj, obj.injEq] at hvalue
    rw [hvalue]
    rfl

/-- **The fragments of a document under new names** stand for the same, but for the names. -/
theorem resolution_withNames (hρ : Function.Injective ρ)
    (horder : RefersAlong (fun a b => a < b ↔ ρ a < ρ b) w)
    (hold : declared w.settled = objects fragments)
    (hnew : declared (withNames ρ w).settled = objects others) (n : String) :
    resolution others (ρ n) =
      (resolution fragments n).map (substituted (Token.newNames ρ)) := by
  have hasc := ascending_of_objects (hold ▸ ascending_declared w)
  have hasc' := ascending_of_objects (hnew ▸ ascending_declared (withNames ρ w))
  have hkeeps : KeepsOrder ρ fragments := by
    rw [RefersAlong, hold, names_objects] at horder
    exact fun f hf => horder (f.1, obj f.2) (List.mem_map_of_mem hf)
  exact resolution_renamed hasc hasc' (valueAt?_others hρ hold hnew) hkeeps n

/-- A fragment of the document under new names has a new name of a fragment. -/
theorem exists_of_mem_declared_withNames (hρ : Function.Injective ρ) {e : String × Json}
    (he : e ∈ declared (withNames ρ w).settled) : ∃ f ∈ declared w.settled, e.1 = ρ f.1 := by
  obtain ⟨n, hkey⟩ := exists_name_of_mem_declared he
  have hvalue := (ascending_declared _).mem_iff.mp he
  rw [hkey, withNames, valueAt?_declared_redeclared hρ, settled_renamed, declared_renamed,
    valueAt?_map (renamedAt ρ)] at hvalue
  obtain ⟨v, hv, -⟩ := Option.map_eq_some_iff.mp hvalue
  exact ⟨(n, v), mem_of_valueAt? hv, hkey⟩

theorem CompileRenamed.withNames (h : CompileRenamed refusal? ρ w) (hρ : Function.Injective ρ) :
    ∀ e ∈ declared (withNames ρ w).settled, refusal? e.1 = none := by
  intro e he
  obtain ⟨f, hf, hkey⟩ := exists_of_mem_declared_withNames hρ he
  rw [hkey]
  exact (h f hf).2

/-- **The resolved documents have one table**, up to the names. -/
theorem agree_resolve (h : WriteRenamed ρ w first second) (hρ : Function.Injective ρ)
    (hcompile : CompileRenamed refusal? ρ w)
    (horder : RefersAlong (fun a b => a < b ↔ ρ a < ρ b) w) {members members' : List (String × Json)}
    (hread : w.settled = obj members) (hread' : (withNames ρ w).settled = obj members') :
    Agree (FlagSet.renamed ρ) DocumentError.Alike
      (resolve refusal? first.toList (obj members) members >>= decode)
      (resolve refusal? second.toList (obj members') members' >>= decode) := by
  have hnames : ∀ f ∈ declared w.settled, refusal? f.1 = none := fun f hf => (hcompile f hf).1
  have hnames' := hcompile.withNames hρ
  by_cases hobjects : AllObjects w.settled
  · obtain ⟨fragments, hold⟩ := exists_objects hobjects
    obtain ⟨others, hnew⟩ := exists_objects ((allObjects_withNames hρ w).mpr hobjects)
    have hrel := ofTokens?_withNames (h.once.declaresObjects hobjects)
      (resolution_withNames hρ horder hold hnew)
    rw [hold] at hnames
    rw [hnew] at hnames'
    rw [resolve_eq_ofTokens? hread h.written h.plain hold (List.forall_mem_map.mp hnames),
      resolve_eq_ofTokens? hread' h.written' h.plain' hnew (List.forall_mem_map.mp hnames')]
    generalize ofTokens? (substituted (resolution others) (withNames ρ w).tokens) = o' at hrel
    generalize ofTokens? (substituted (resolution fragments) w.tokens) = o at hrel
    rcases o with - | v
    · rcases hrel with - | -
      exact .error .notJson
    · rcases hrel with ⟨halike⟩ | -
      simp only [Option.elim]
      change Agree _ _ (decode v) (decode _)
      rw [decode_congr halike]
      exact decode_renamed v
  · -- a fragment that is no object is refused under either name, before any reference is replaced
    obtain ⟨name, hold⟩ := exists_badFragment hread hnames hobjects first.toList
    obtain ⟨name', hnew⟩ := exists_badFragment hread' hnames'
      (mt (allObjects_withNames hρ w).mp hobjects) second.toList
    rw [hold, hnew]
    exact .error (.badFragment name name' _)

theorem agree_checkShape (hρ : Function.Injective ρ) (check : ShapeCheck) (w : Json) :
    Agree id DocumentError.Alike (checkShape check w.settled)
      (checkShape check (withNames ρ w).settled) := by
  have halike : AlikeButFragments (withNames ρ w).settled (w.settled.renamed ρ) := by
    intro key hkey
    rw [withNames, member?_settled_redeclared hkey, settled_renamed]
  have hviolations := Schema.violations_renamed (isObject_withNames w) halike
    (fragmentsViolations_withNames hρ w)
  cases check with
  | strict =>
    rw [checkShape, checkShape]
    rcases hold : Schema.violations w.settled with - | ⟨x, found⟩
    · rw [hviolations.mpr hold]
      exact .ok ()
    · rcases hnew : Schema.violations (withNames ρ w).settled with - | ⟨y, found'⟩
      · rw [hviolations.mp hnew] at hold
        cases hold
      · exact .error (.violations _ _)
  | _ => exact .ok ()

/-- **New names that keep the order change nothing but the names.** -/
theorem agree_parse (h : WriteRenamed ρ w first second) (hρ : Function.Injective ρ)
    (hcompile : CompileRenamed refusal? ρ w)
    (horder : RefersAlong (fun a b => a < b ↔ ρ a < ρ b) w) (check : ShapeCheck) :
    Agree (FlagSet.renamed ρ) DocumentError.Alike (parse ⟨check, refusal?⟩ first)
      (parse ⟨check, refusal?⟩ second) := by
  have hcheck := agree_checkShape hρ check w
  have hfirst := readText_of_isWrittenIn h.written
  have hsecond := readText_of_isWrittenIn h.written'
  have hsame := @isObject_withNames ρ w
  by_cases hobject : w.settled.isObject = true
  · obtain ⟨members, hread⟩ := exists_of_isObject hobject
    obtain ⟨members', hread'⟩ := exists_of_isObject (hsame.trans hobject)
    rw [parse_of_object _ (hread ▸ hfirst), parse_of_object _ (hread' ▸ hsecond), ← hread, ← hread']
    refine hcheck.bind fun _ => ?_
    rw [hread, hread']
    exact agree_resolve h hρ hcompile horder hread hread'
  · rw [parse_of_not_object _ hfirst hobject, parse_of_not_object _ hsecond (hsame ▸ hobject)]
    exact hcheck.bind fun _ => .error .noFlags

end Renamed

/-! ## The order of names matters -/

/-- **A name is usable**: it is plain, and a pattern compiles for the references to it. -/
structure IsUsable (refusal? : String → Option String) (n : String) : Prop where
  plain : IsPlain n
  compiles : refusal? n = none

section Chained

variable {a b : String}

/-- **A document in which fragments form a chain**: its flag refers to `a`, and `a` to `b`. -/
def chained (a b : String) : Json :=
  obj [
    ("flags", obj [("on", obj [("state", str "ENABLED"), ("targeting", obj [(refKey, str a)])])]),
    ("$evaluators", obj [(a, obj [(refKey, str b)]), (b, obj [("var", str "x")])])]

theorem withNames_chained : withNames ρ (chained a b) = chained (ρ a) (ρ b) := by
  have hobject (key : String) (members : List (String × Json)) :
      reference? (key, obj members) = none := reference?_of_isObject rfl
  simp [withNames, chained, renamed_obj, redeclared, redeclaredMember, renamedAt, hobject, rekeyed,
    show reference? ("state", str "ENABLED") = none from rfl,
    show reference? ("var", str "x") = none from rfl,
    show ∀ n, reference? (refKey, str n) = some n from fun _ => rfl]

/-- The fragments of the chain, in the order of their names. -/
def chainedFragments (a b : String) : List (String × List (String × Json)) :=
  if a < b then [(a, [(refKey, Json.str b)]), (b, [("var", Json.str "x")])]
  else [(b, [("var", Json.str "x")]), (a, [(refKey, Json.str b)])]

theorem settled_chained (hab : a ≠ b) :
    (chained a b).settled = obj [("$evaluators", obj (objects (chainedFragments a b))),
      ("flags", obj [("on", obj [("state", str "ENABLED"), ("targeting", obj [(refKey, str a)])])])] := by
  have hparts : "$evaluators" < "flags" := by decide
  have hfields : "state" < "targeting" ∧ ¬ "targeting" < "state" := by decide
  rw [chainedFragments]
  by_cases h : a < b
  · have h' : ¬ b < a := fun h' => String.lt_irrefl _ (String.lt_trans h h')
    simp [chained, settled, settledMembers, insertEntry, objects, h, h', hparts, hfields]
  · have h' : b < a := by
      by_contra h'
      exact hab (eq_of_not_lt h h')
    simp [chained, settled, settledMembers, insertEntry, objects, h, h', hparts, hfields]

/-- **What `a` stands for** depends on which of the two names comes first. -/
theorem resolved_chained (hab : a ≠ b) :
    resolved (chainedFragments a b) a =
      some [if a < b then ("var", Json.str "x") else (refKey, Json.str b)] := by
  rw [chainedFragments]
  split
  · simp [resolved, splicedMembers, reference?, refKey, string?, spliced]
  · simp [resolved, splicedMembers, reference?, refKey, string?, hab, spliced]

theorem declared_chained (hab : a ≠ b) :
    declared (chained a b).settled = objects (chainedFragments a b) := by
  rw [settled_chained hab]
  rfl

theorem names_chained : (chainedFragments a b).map (·.1) = if a < b then [a, b] else [b, a] := by
  rw [chainedFragments]
  split <;> rfl

/-- The printed chain is a text with plain references. -/
theorem spelledPlainly_chained (hab : a ≠ b) (ha : IsPlain a) (hb : IsPlain b) :
    SpelledPlainly (chained a b).print (chained a b) := by
  have hnames : ∀ n ∈ (chainedFragments a b).map (·.1), IsPlain n := by
    rw [names_chained]
    split <;> simp [ha, hb]
  have hreadable : All IsReadable (chained a b) := by
    simp [chained, all_obj, all_str, IsReadable]
  refine ⟨?_, ?_, ?_⟩
  · rw [declared_chained hab, names_objects, Json.print, String.toList_ofList]
    refine (spells_chars hreadable).mono ?_
    rintro s (rfl | hs)
    · decide
    · exact hnames s hs
  · rw [declared_chained hab]
    exact List.forall_mem_map.mpr fun f hf => hnames f.1 (List.mem_map_of_mem hf)
  · have hkeys : All (HasKeys IsPlain) (chained a b) := by
      have hwords : IsPlain "flags" ∧ IsPlain "on" ∧ IsPlain "state" ∧ IsPlain "targeting" ∧
          IsPlain "$evaluators" ∧ IsPlain "var" ∧ IsPlain refKey := by decide
      simp only [chained, all_obj, all_str, HasKeys, OnMembers, List.forall_mem_cons, hwords]
      simp [ha, hb]
    exact hkeys.imp fun _ => OnMembers.imp fun _ h m hm => isDistinguished_of_isPlain (h m hm)

theorem isWrittenIn_chained (hab : a ≠ b) (ha : IsPlain a) (hb : IsPlain b) :
    IsWrittenIn (chained a b).print (chained a b) :=
  ⟨(spelledPlainly_chained hab ha hb).spells.ofText?, by
    simp [chained, depth, membersDepth, Builder.deepest]⟩

theorem declaresOnce_chained (hab : a ≠ b) : DeclaresOnce (chained a b) := by
  refine ⟨by simp [chained, HasDistinctKeys, OnMembers], ?_⟩
  simp [chained, HasDistinctKeys, OnMembers, hab]

theorem referencesAlone_chained (hab : a ≠ b) : ReferencesAlone (chained a b) := by
  have hobject (key : String) (members : List (String × Json)) :
      reference? (key, obj members) = none := reference?_of_isObject rfl
  have hother : reference? ("state", Json.str "ENABLED") = none := rfl
  refine ⟨by simp [chained, all_obj, all_str, HasDistinctKeys, OnMembers, hab], ?_⟩
  have hlone {names : String → Prop} {members : List (String × Json)}
      (h : ∀ m ∈ members, reference? m = none ∨ members = [m]) :
      HasLoneReferences names (obj members) := by
    refine onMembers_obj.mpr ?_
    intro n _ hm
    rcases h _ hm with hnone | hone
    · cases hnone
    · exact hone
  have hleaf (names : String → Prop) (s : String) : HasLoneReferences names (str s) := trivial
  simp only [chained, all_obj, all_str, List.forall_mem_cons, List.not_mem_nil, false_implies,
    implies_true, and_true, hleaf, true_and]
  refine ⟨hlone ?_, ⟨hlone ?_, hlone ?_, hlone ?_⟩, hlone ?_, hlone ?_, hlone ?_⟩ <;>
    simp [hobject, hother]

/-- The chain with its references replaced. -/
theorem exists_spliced_chained (hab : a ≠ b) :
    ∃ v : Json, v.depth = 2 ∧
      (chained a b).settled.spliced (resolved (chainedFragments a b)) =
        obj [("$evaluators", v), ("flags", obj [("on", obj [("state", str "ENABLED"),
          ("targeting", obj [if a < b then ("var", str "x") else (refKey, str b)])])])] := by
  have hobject (key : String) (members : List (String × Json)) :
      reference? (key, obj members) = none := reference?_of_isObject rfl
  have hname (n : String) : reference? (refKey, Json.str n) = some n := rfl
  have hother : reference? ("state", Json.str "ENABLED") = none := rfl
  have hvar : reference? ("var", Json.str "x") = none := rfl
  have hlast : resolved (chainedFragments a b) b = some [("var", Json.str "x")] := by
    rw [chainedFragments]
    split <;> simp [resolved, splicedMembers, hvar, spliced, Ne.symm hab]
  have hbodies : splicedMembers (resolved (chainedFragments a b)) (objects (chainedFragments a b)) =
      objects ((chainedFragments a b).map fun f => (f.1, [("var", Json.str "x")])) := by
    generalize resolved (chainedFragments a b) = σ at hlast
    rw [chainedFragments]
    split <;> simp [objects, splicedMembers, spliced, hobject, hname, hvar, hlast]
  refine ⟨obj (objects ((chainedFragments a b).map fun f => (f.1, [("var", Json.str "x")]))), ?_, ?_⟩
  · rw [chainedFragments]
    split <;> simp [objects, depth, membersDepth]
  · rw [settled_chained hab]
    simp [spliced, splicedMembers, hobject, hother, hname, resolved_chained hab, hbodies]

theorem compile_chained (ha : refusal? a = none) (hb : refusal? b = none) :
    Compile refusal? (chainedFragments a b) := by
  rw [Compile, chainedFragments]
  split <;> simp [ha, hb]

/-- **The rule of the chained document** is the last fragment or a reference to it. -/
theorem parse_chained (hab : a ≠ b) (ha : IsUsable refusal? a) (hb : IsUsable refusal? b) :
    ∃ s, parse ⟨.none, refusal?⟩ (chained a b).print = .ok s ∧
      (s.get? "on").bind (·.rule) =
        some (obj [if a < b then ("var", str "x") else (refKey, str b)]) := by
  obtain ⟨v, hdepth, hspliced⟩ := exists_spliced_chained hab
  have hobject : (chained a b).settled.isObject = true := by
    rw [settled_chained hab]
    rfl
  rw [parse_eq (isWrittenIn_chained hab ha.plain hb.plain)
    (spelledPlainly_chained hab ha.plain hb.plain) (referencesAlone_chained hab) (declared_chained hab)
    (compile_chained ha.compiles hb.compiles) hobject, hspliced, if_pos]
  · exact ⟨_, rfl, rfl⟩
  · split <;> simp [depth, membersDepth, hdepth, Builder.deepest]

/-- The chain is written under two pairs of names. -/
theorem writeRenamed_chained (hρ : Function.Injective ρ) (hab : a ≠ b) (ha : IsPlain a)
    (hb : IsPlain b) (ha' : IsPlain (ρ a)) (hb' : IsPlain (ρ b)) :
    WriteRenamed ρ (chained a b) (chained a b).print (chained (ρ a) (ρ b)).print := by
  refine ⟨isWrittenIn_chained hab ha hb, ?_, spelledPlainly_chained hab ha hb, ?_,
    declaresOnce_chained hab⟩
  · rw [withNames_chained]
    exact isWrittenIn_chained (hρ.ne hab) ha' hb'
  · rw [withNames_chained]
    exact spelledPlainly_chained (hρ.ne hab) ha' hb'

/-- In the chain only `a` refers to a fragment. -/
theorem refersAlong_chained {links : String → String → Prop} (hab : a ≠ b) (h : links a b) :
    RefersAlong links (chained a b) := by
  rw [RefersAlong, declared_chained hab, names_objects, names_chained]
  have hname : reference? (refKey, str b) = some b := rfl
  have hvar : reference? ("var", str "x") = none := rfl
  rw [chainedFragments]
  split <;>
    simp [objects, all_obj, all_str, HasReferences, OnMembers, hname, hvar, h]

/-- **The chain is read alike under other names** only if they keep the order of the two. -/
theorem lt_iff_of_agree_chained (hρ : Function.Injective ρ) (hab : a ≠ b)
    (ha : IsUsable refusal? a) (hb : IsUsable refusal? b) (ha' : IsUsable refusal? (ρ a))
    (hb' : IsUsable refusal? (ρ b))
    (h : Agree (FlagSet.renamed ρ) DocumentError.Alike (parse ⟨.none, refusal?⟩ (chained a b).print)
      (parse ⟨.none, refusal?⟩ (chained (ρ a) (ρ b)).print)) : a < b ↔ ρ a < ρ b := by
  obtain ⟨s, hs, hrule⟩ := parse_chained hab ha hb
  obtain ⟨s', hs', hrule'⟩ := parse_chained (hρ.ne hab) ha' hb'
  rw [hs, hs'] at h
  obtain ⟨_⟩ := h
  have hsame : ((s.renamed ρ).get? "on").bind (·.rule) =
      ((s.get? "on").bind (·.rule)).map (Json.renamed ρ) := by
    have hget : (s.renamed ρ).get? "on" = (s.get? "on").map (Flag.renamed ρ) :=
      KeyMap.get?_mapped _ _ _
    rw [hget]
    rcases s.get? "on" with - | flag <;> rfl
  rw [hrule', hrule, Option.map_some, renamed_obj] at hsame
  by_cases hlt : a < b <;> by_cases hlt' : ρ a < ρ b <;>
    simp [hlt, hlt', refKey] at hsame ⊢

end Chained

/-! ## What names mean -/

/-- The names of fragments are usable, old ones and new ones. -/
theorem WriteRenamed.isUsable {first second : String} (h : WriteRenamed ρ w first second)
    (hρ : Function.Injective ρ) (hcompile : CompileRenamed refusal? ρ w) {n : String}
    (hn : n ∈ (declared w.settled).map (·.1)) : IsUsable refusal? n ∧ IsUsable refusal? (ρ n) := by
  obtain ⟨f, hf, rfl⟩ := List.mem_map.mp hn
  obtain ⟨hold, hnew⟩ := hcompile f hf
  refine ⟨⟨h.plain.names f hf, hold⟩, ?_, hnew⟩
  have hvalue := valueAt?_declared_redeclared hρ (w.renamed ρ) f.1
  rw [settled_renamed, declared_renamed, valueAt?_map (renamedAt ρ),
    (ascending_declared w).mem_iff.mp hf] at hvalue
  exact h.plain'.names _ (mem_of_valueAt? hvalue)

/-- **What the names of fragments mean is their order.**  Whatever the documents whose fragments refer
to each other along the given links, and whose names can be looked for, their tables are the same under
new names, but for the names, exactly when the new names keep the order of linked names. -/
theorem parse_withNames_iff (hρ : Function.Injective ρ) (refusal? : String → Option String)
    (links : String → String → Prop) :
    (∀ w first second, WriteRenamed ρ w first second → CompileRenamed refusal? ρ w →
        RefersAlong links w → ∀ check,
        Agree (FlagSet.renamed ρ) DocumentError.Alike (parse ⟨check, refusal?⟩ first)
          (parse ⟨check, refusal?⟩ second)) ↔
      ∀ a b, IsUsable refusal? a → IsUsable refusal? b → IsUsable refusal? (ρ a) →
        IsUsable refusal? (ρ b) → links a b → (a < b ↔ ρ a < ρ b) := by
  constructor
  · intro h a b ha hb ha' hb' hlink
    by_cases hab : a = b
    · subst hab
      simp
    · have hcompile : CompileRenamed refusal? ρ (chained a b) := by
        rw [CompileRenamed, declared_chained hab, chainedFragments]
        split <;> simp [objects, ha.compiles, hb.compiles, ha'.compiles, hb'.compiles]
      exact lt_iff_of_agree_chained hρ hab ha hb ha' hb' <|
        h _ _ _ (writeRenamed_chained hρ hab ha.plain hb.plain ha'.plain hb'.plain) hcompile
          (refersAlong_chained hab hlink) .none
  · intro h w first second hwritten hcompile halong check
    refine agree_parse hwritten hρ hcompile ?_ check
    intro f hf
    refine (halong f hf).imp ?_
    refine fun v => HasReferences.imp ?_
    intro n hn hmem
    obtain ⟨hfirst, hfirst'⟩ := hwritten.isUsable hρ hcompile (List.mem_map_of_mem hf)
    obtain ⟨hsecond, hsecond'⟩ := hwritten.isUsable hρ hcompile hmem
    exact h f.1 n hfirst hsecond hfirst' hsecond' (hn hmem)

/-- Two names that change places do not mean the same. -/
theorem parse_withNames_swapped :
    Function.Injective (Equiv.swap "a" "b") ∧
      ¬ ∀ w first second, WriteRenamed (Equiv.swap "a" "b") w first second →
        CompileRenamed tooBig? (Equiv.swap "a" "b") w → RefersAlong (fun _ _ => True) w → ∀ check,
        Agree (FlagSet.renamed (Equiv.swap "a" "b")) DocumentError.Alike
          (parse (.standard check) first) (parse (.standard check) second) := by
  have hinjective := (Equiv.swap "a" "b").injective
  refine ⟨hinjective, (not_congr (parse_withNames_iff hinjective tooBig? fun _ _ => True)).mpr ?_⟩
  intro h
  have ha : IsUsable tooBig? "a" := ⟨by decide, by decide⟩
  have hb : IsUsable tooBig? "b" := ⟨by decide, by decide⟩
  have horder := h "a" "b" ha hb
  rw [Equiv.swap_apply_left, Equiv.swap_apply_right] at horder
  exact absurd (horder hb ha trivial) (by decide)

end Document

end FeatureFlags
