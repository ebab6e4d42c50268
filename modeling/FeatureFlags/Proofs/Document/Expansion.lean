import FeatureFlags.Proofs.Document.Parsing

/-!
# Proofs/Document/Expansion — a document with its fragments inlined

Where fragments hold no references, inlining them in the text is inlining them in the document: the
table of a text is the table of its document, printed with each reference replaced by the fragment it
names (`Document.parse_inlined`).
-/

namespace FeatureFlags

open Token

namespace Document

open Fragments Json

variable {text : String} {w : Json} {fragments : List (String × List (String × Json))}

/-! ## Fragments without references -/

/-- Without a reference nothing is linked. -/
theorem isUnlinked_of_hasKeys {σ : String → Option (List (String × Json))} {v : Json}
    (h : HasKeys (· ≠ refKey) v) : IsUnlinked σ v := by
  refine OnMembers.imp (fun members hkeys m hm => ?_) h
  rw [reference?, if_neg (hkeys m hm)]
  rfl

/-- Bodies without references are what their names stand for. -/
theorem resolved_eq (h : ∀ f ∈ fragments, All (HasKeys (· ≠ refKey)) (obj f.2)) (n : String) :
    (resolved fragments n).map obj = valueAt? n (objects fragments) := by
  induction fragments with
  | nil => rfl
  | cons f rest ih =>
    obtain ⟨hf, hrest⟩ := List.forall_mem_cons.mp h
    have hbody : (obj f.2).spliced (resolved rest) = obj f.2 :=
      spliced_of_isUnlinked (hf.imp fun _ => isUnlinked_of_hasKeys)
    rw [resolved, objects, List.map_cons, valueAt?]
    by_cases hn : n = f.1
    · rw [if_pos hn, if_pos hn.symm]
      exact congrArg some hbody
    · rw [if_neg hn, if_neg (Ne.symm hn)]
      exact ih hrest

theorem isUnlinked_declared {σ : String → Option (List (String × Json))}
    (h : ∀ f ∈ fragments, All (IsUnlinked σ) (obj f.2)) : All (IsUnlinked σ) (obj (objects fragments)) := by
  refine all_obj.mpr ⟨onMembers_obj.mpr (List.forall_mem_map.mpr fun f _ => ?_),
    List.forall_mem_map.mpr h⟩
  rw [reference?]
  split <;> rfl

/-- Fragments without references are declared as before where references have been replaced. -/
theorem declared_spliced {σ : String → Option (List (String × Json))} {document : Json}
    (h : document.member? "$evaluators" = some (obj (objects fragments)))
    (hunlinked : ∀ f ∈ fragments, All (IsUnlinked σ) (obj f.2))
    (hlone : HasLoneReferences (· ∈ fragments.map (·.1)) document)
    (hnames : ∀ n group, σ n = some group → n ∈ fragments.map (·.1)) :
    declared (document.spliced σ) = objects fragments := by
  obtain ⟨members, rfl, hvalue⟩ := exists_of_member? h
  -- the document declares fragments, so it is no reference itself
  rcases hlone.cases hnames with ⟨n, group, rfl, -, -⟩ | hself
  · simp [valueAt?, refKey] at hvalue
  · have hkept : (obj (objects fragments)).spliced σ = obj (objects fragments) :=
      spliced_of_isUnlinked (isUnlinked_declared hunlinked)
    refine declared_of_member? ?_
    change valueAt? "$evaluators" (splicedMembers σ members) = _
    rw [hself.splicedMembers, valueAt?_map fun _ => spliced σ, hvalue, Option.map_some, hkept]

/-- A property of all bodies holds in what their names stand for. -/
theorem all_resolved {p : Json → Prop} (hbare : ∀ f ∈ fragments, All (HasKeys (· ≠ refKey)) (obj f.2))
    (h : ∀ f ∈ fragments, All p (obj f.2)) :
    ∀ n group, resolved fragments n = some group → All p (obj group) := by
  intro n group hn
  have hvalue := resolved_eq hbare n
  rw [hn, Option.map_some] at hvalue
  obtain ⟨f, hf, heq⟩ := List.mem_map.mp (mem_of_valueAt? hvalue.symm)
  rw [← (Prod.mk.inj heq).2]
  exact h f hf

section Inlined

variable (hplain : SpelledPlainly text w) (halone : ReferencesAlone w)
  (hfound : w.settled.member? "$evaluators" = some (obj (objects fragments)))
  (hbare : ∀ f ∈ fragments, All (HasKeys (· ≠ refKey)) (obj f.2))

include halone hfound

theorem lone_settled : All (HasLoneReferences (· ∈ fragments.map (·.1))) w.settled := by
  have hlone := halone.lone.settled fun _ hv => hv.settled
  rwa [declared_of_member? hfound, names_objects] at hlone

/-- The document with its references replaced reads as it is. -/
theorem settled_spliced_resolved :
    (w.settled.spliced (resolved fragments)).settled = w.settled.spliced (resolved fragments) := by
  have hgroups := settled_resolved_declared halone (declared_of_member? hfound)
  rw [settled_spliced (names_resolved fragments) hgroups (lone_settled halone hfound),
    settled_settled]

include hbare

theorem isUnlinked_spliced_resolved :
    All (IsUnlinked (resolved fragments)) (w.settled.spliced (resolved fragments)) :=
  All.spliced (p := fun _ => True) (fun _ h _ => h.spliced) (names_resolved fragments)
    (all_resolved hbare fun f hf => (hbare f hf).imp fun _ => isUnlinked_of_hasKeys)
    (lone_settled halone hfound) (all_of_forall (fun _ => trivial) _)

/-- What holds in everything a text writes holds in it. -/
theorem all_spliced_resolved {p : Json → Prop} (hread : ∀ v, p v → p v.settled)
    (hp : ∀ v, IsUnlinked (resolved fragments) v → p v → p (v.spliced (resolved fragments)))
    (h : All p w) : All p (w.settled.spliced (resolved fragments)) :=
  All.spliced hp (names_resolved fragments)
    (all_resolved hbare (all_objects (h.settled hread) (declared_of_member? hfound)))
    (lone_settled halone hfound) (h.settled hread)

/-- It declares the fragments that the document declares. -/
theorem declared_spliced_resolved :
    declared (w.settled.spliced (resolved fragments)) = objects fragments :=
  declared_spliced hfound (fun f hf => (hbare f hf).imp fun _ => isUnlinked_of_hasKeys)
    (lone_settled halone hfound).self (names_resolved fragments)

theorem referencesAlone_spliced_resolved :
    ReferencesAlone (w.settled.spliced (resolved fragments)) where
  distinct := by
    rw [← settled_spliced_resolved halone hfound]
    exact all_hasDistinctKeys_settled _
  lone := by
    rw [settled_spliced_resolved halone hfound, declared_spliced_resolved halone hfound hbare,
      names_objects]
    refine (isUnlinked_spliced_resolved halone hfound hbare).imp fun _ h =>
      h.hasLoneReferences fun n => resolved_ne_none

include hplain

/-- Its printed text spells references plainly. -/
theorem spelledPlainly_spliced_resolved :
    SpelledPlainly (w.settled.spliced (resolved fragments)).print
      (w.settled.spliced (resolved fragments)) where
  spells := by
    have hreadable := (forall_readable_iff w).mp hplain.spells.readable
    rw [Json.print, String.toList_ofList, settled_spliced_resolved halone hfound,
      declared_spliced_resolved halone hfound hbare, names_objects]
    exact (spells_chars (all_spliced_resolved halone hfound hbare (fun _ hv => hv.settled)
      (fun _ _ hv => hv.spliced) hreadable)).mono fun _ =>
        (hplain.applicable (declared_of_member? hfound)).isPlain
  names := by
    rw [settled_spliced_resolved halone hfound, declared_spliced_resolved halone hfound hbare,
      ← declared_of_member? hfound]
    exact hplain.names
  keys := all_spliced_resolved halone hfound hbare (fun _ hv => hv.settled)
    (fun _ h hv => hv.spliced h) hplain.keys

end Inlined

/-- **Inlining the fragments in the text is inlining them in the document**: the table of a text is the
table of its document, printed with each reference replaced by its fragment.  If a fragment is refused
for its name, it is refused in both, as long as what is printed can be read back. -/
theorem parse_inlined {refusal? : String → Option String} {text : String} {w : Json}
    {found : List (String × Json)}
    (hwritten : IsWrittenIn text w) (hslash : '\\' ∉ text.toList)
    (hdistinct : All HasDistinctKeys w)
    (hfound : w.settled.member? "$evaluators" = some (obj found))
    (hobjects : ∀ f ∈ found, f.2.isObject = true ∧ All (HasKeys (· ≠ refKey)) f.2)
    (hlone : All HasLoneReferenceKey w)
    (hnames : (∀ f ∈ found, refusal? f.1 = none) ∨ (w.settled.inlined found).depth ≤ Builder.deepest) :
    parse ⟨.none, refusal?⟩ text = parse ⟨.none, refusal?⟩ (w.settled.inlined found).print := by
  obtain ⟨fragments, rfl⟩ := exists_objects fun f hf => (hobjects f hf).1
  obtain ⟨members, hread, -⟩ := exists_of_member? hfound
  have hobject : w.settled.isObject = true := by rw [hread]; rfl
  have hbare : ∀ f ∈ fragments, All (HasKeys (· ≠ refKey)) (obj f.2) := fun f hf =>
    (hobjects _ (List.mem_map_of_mem hf)).2
  have hplain := spelledPlainly_of_no_backslash hwritten hslash
  have halone := referencesAlone_of_key hdistinct hlone
  have hspelled := spelledPlainly_spliced_resolved hplain halone hfound hbare
  have hsettled := settled_spliced_resolved halone hfound
  have hunlinked := isUnlinked_spliced_resolved halone hfound hbare
  have hdeclared := declared_spliced_resolved halone hfound hbare
  have hobject' : (w.settled.spliced (resolved fragments)).isObject = true := by
    rw [isObject_spliced, hobject]
  rw [← spliced_eq_inlined (resolved_eq hbare) (names_resolved fragments)
    (lone_settled halone hfound)] at hnames ⊢
  cases hrefused : refused? refusal? (objects fragments) with
  | none =>
    have hcompile := compile_of_refused? hrefused
    rw [parse_eq hwritten hplain halone (declared_of_member? hfound) hcompile hobject]
    by_cases hfits : (w.settled.spliced (resolved fragments)).depth ≤ Builder.deepest
    · rw [parse_eq ⟨hspelled.spells.ofText?, hfits⟩ hspelled
        (referencesAlone_spliced_resolved halone hfound hbare) (hsettled.symm ▸ hdeclared) hcompile
        (hsettled.symm ▸ hobject'), hsettled, spliced_of_isUnlinked hunlinked]
    · rw [if_neg hfits, parse, readText_of_tokens hspelled.spells.ofText?, if_neg hfits]
      rfl
  | some bad =>
    -- the fragment is refused in both texts, as both declare it
    have hfits := hnames.resolve_left fun hall => by
      rw [refused?_eq_none_iff.mpr hall] at hrefused
      cases hrefused
    rw [parse_of_refused hwritten hobject (declared_of_member? hfound) hrefused,
      parse_of_refused ⟨hspelled.spells.ofText?, hfits⟩ (hsettled.symm ▸ hobject')
        (hsettled.symm ▸ hdeclared) hrefused]

/-- A text with blanks inside its references. -/
def spacedText : String :=
  "\x7b \"flags\": \x7b\"on\": \x7b\"state\": \"ENABLED\", \"targeting\": " ++
    "\x7b\"if\": [\x7b\"$ref\" : \"a.b\"\x7d, \x7b\n\"$ref\"\n:\"none\" \x7d]\x7d\x7d\x7d,\n" ++
    "\"$evaluators\": \x7b\"none\": \x7b\x7d, \"a.b\": \x7b\"in\": \"$1\"\x7d\x7d \x7d"

/-- What it writes. -/
def spacedValue : Json :=
  .obj [
    ("flags", .obj [("on", .obj [("state", .str "ENABLED"),
      ("targeting", .obj [("if", .arr [.obj [("$ref", .str "a.b")], .obj [("$ref", .str "none")]])])])]),
    ("$evaluators", .obj [("none", .obj []), ("a.b", .obj [("in", .str "$1")])])]

/-- Its document, printed with the references replaced. -/
def spacedExpansion : String :=
  "\x7b\"$evaluators\":\x7b\"a.b\":\x7b\"in\":\"$1\"\x7d,\"none\":\x7b\x7d\x7d," ++
    "\"flags\":\x7b\"on\":\x7b\"state\":\"ENABLED\",\"targeting\":" ++
    "\x7b\"if\":[\x7b\"in\":\"$1\"\x7d,\x7b\x7d]\x7d\x7d\x7d\x7d"

theorem parse_inlined_spaced :
    (parse (.standard .none) spacedText).isOk = true ∧
      parse (.standard .none) spacedText = parse (.standard .none) spacedExpansion := by
  have hwritten : IsWrittenIn spacedText spacedValue := ⟨by decide +kernel, by decide⟩
  have h := @parse_inlined tooBig? spacedText spacedValue
    [("a.b", .obj [("in", .str "$1")]), ("none", .obj [])] hwritten (by decide +kernel) (by decide)
    (by cbv) (by decide) (by decide) (.inl (by decide))
  have hprint : (spacedValue.settled.inlined
      [("a.b", .obj [("in", .str "$1")]), ("none", .obj [])]).print = spacedExpansion := by
    decide +kernel
  rw [hprint] at h
  exact ⟨by decide +kernel, h⟩

end Document

end FeatureFlags
