import FeatureFlags.Proofs.Document.Renaming

/-!
# Proofs/Document/Precedence — which fragment is applied before which

Fragments are applied in the order of their names, so a reference inside a fragment is resolved when
the fragment it names comes later (`Fragments.resolution_of_ascending`).  New names that keep the order
of fragments and of what these refer to change nothing but the names (`Fragments.resolution_renamed`),
and the text that is left is read as before, under new names (`Fragments.ofTokens?_withNames`).
-/

namespace FeatureFlags

open Token

namespace Json

variable {p q : String → Prop}

/-! ## What a value refers to -/

/-- **The value, if an object, refers to nothing** but names among the given ones. -/
def HasReferences (p : String → Prop) : Json → Prop :=
  OnMembers fun members => ∀ m ∈ members, ∀ n ∈ reference? m, p n

instance [DecidablePred p] : DecidablePred (HasReferences p) :=
  inferInstanceAs (DecidablePred (OnMembers fun members =>
    ∀ m ∈ members, ∀ n ∈ reference? m, p n))

theorem HasReferences.imp (h : ∀ n, p n → q n) {v : Json} (hv : HasReferences p v) :
    HasReferences q v :=
  OnMembers.imp (fun _ hmembers m hm n hn => h n (hmembers m hm n hn)) hv

variable {first second : String → Option (List Token)}

/-- **Replacing references depends on what is referred to.** -/
theorem substituted_congr {v : Json} (h : All (HasReferences fun n => first n = second n) v) :
    substituted first v.tokens = substituted second v.tokens := by
  induction v using Json.induct with
  | null | bool | num | str => simp [tokens, substituted_singleton]
  | arr items ih =>
    rw [substituted_arr, substituted_arr]
    exact congrArg (fun rows => Token.openBracket :: (separated rows ++ [.closeBracket]))
      (List.map_congr_left fun v hv => ih v hv ((all_arr.mp h).2 v hv))
  | obj members ih =>
    obtain ⟨hself, hmembers⟩ := all_obj.mp h
    rw [substituted_obj, substituted_obj]
    refine congrArg (fun rows => Token.openBrace :: (separated rows ++ [.closeBrace]))
      (List.map_congr_left ?_)
    intro m hm
    have hname : (reference? m).bind first = (reference? m).bind second := by
      rcases hn : reference? m with - | n
      · rfl
      · exact onMembers_obj.mp hself m hm n hn
    rw [piece, piece, hname, ih m hm (hmembers m hm)]

/-- … among the tokens of members as well. -/
theorem substituted_memberTokens_congr {members : List (String × Json)}
    (h : All (HasReferences fun n => first n = second n) (obj members)) :
    substituted first (memberTokens members) = substituted second (memberTokens members) := by
  have htokens := substituted_congr h
  rw [tokens, substituted_braces, substituted_braces] at htokens
  exact List.append_cancel_right (List.cons.inj htokens).2

end Json

namespace Fragments

open Json

variable {ρ : String → String} {fragments others : List (String × List (String × Json))}

/-! ## The order of names -/

theorem resolution_eq_none {n : String} (h : valueAt? n fragments = none) : resolution fragments n = none := by
  induction fragments with
  | nil => rfl
  | cons f rest ih =>
    rw [valueAt?] at h
    split at h
    · cases h
    · rename_i hn
      rw [resolution_cons, if_neg (Ne.symm hn), ih h]

/-- What a name stands for among the fragments behind it. -/
def laterResolution (fragments : List (String × List (String × Json))) (n : String) :
    String → Option (List Token) :=
  fun m => if n < m then resolution fragments m else none

/-- The first fragment is not behind a name it does not precede. -/
theorem laterResolution_cons {f : String × List (String × Json)}
    {rest : List (String × List (String × Json))} {n : String} (h : ¬ n < f.1) :
    laterResolution (f :: rest) n = laterResolution rest n := by
  funext m
  rw [laterResolution, laterResolution]
  split
  · rename_i hlt
    have hm : m ≠ f.1 := fun hm => h (hm ▸ hlt)
    rw [resolution_cons, if_neg hm]
  · rfl

/-- All other fragments are behind the first one. -/
theorem laterResolution_of_forall_lt {rest : List (String × List (String × Json))} {n : String}
    (h : ∀ g ∈ rest, n < g.1) : laterResolution rest n = resolution rest := by
  funext m
  rw [laterResolution]
  split
  · rfl
  · rename_i hlt
    refine (resolution_eq_none (valueAt?_eq_none_of_forall_ne ?_)).symm
    intro g hg hm
    exact hlt (hm ▸ h g hg)

/-- **What a name stands for** is its fragment, with the later ones in the place of their names. -/
theorem resolution_of_ascending (h : Ascending fragments) (n : String) :
    resolution fragments n = (valueAt? n fragments).map fun members =>
      substituted (laterResolution fragments n) (memberTokens members) := by
  induction fragments with
  | nil => rfl
  | cons f rest ih =>
    obtain ⟨hf, hrest⟩ := List.pairwise_cons.mp h
    rw [resolution_cons, valueAt?]
    by_cases hn : n = f.1
    · subst hn
      rw [if_pos rfl, if_pos rfl, Option.map_some, laterResolution_cons (String.lt_irrefl _),
        laterResolution_of_forall_lt hf]
    · rw [if_neg hn, if_neg (Ne.symm hn), ih hrest]
      rcases hvalue : valueAt? n rest with - | members
      · rfl
      · have hfirst : f.1 < n := hf _ (mem_of_valueAt? hvalue)
        rw [Option.map_some, Option.map_some, laterResolution_cons (String.lt_asymm hfirst)]

/-- **New names keep the order of fragments** and of the fragments that they refer to. -/
def KeepsOrder (ρ : String → String) (fragments : List (String × List (String × Json))) : Prop :=
  ∀ f ∈ fragments, All (HasReferences fun n =>
    n ∈ fragments.map (·.1) → (f.1 < n ↔ ρ f.1 < ρ n)) (obj f.2)

/-- Replacing references after new names, or new names after replacing references. -/
theorem andThen_newNames {first second : String → Option (List Token)} {n : String}
    (h : second (ρ n) = (first n).map (substituted (Token.newNames ρ))) :
    andThen (Token.newNames ρ) second n = andThen first (Token.newNames ρ) n := by
  have hfield := @substituted_field second (refKey, str (ρ n))
  have hname : reference? (refKey, str (ρ n)) = some (ρ n) := reference?_eq_some_iff.mpr rfl
  rw [piece, hname, Option.bind_some, h] at hfield
  have hnew : andThen (Token.newNames ρ) second n = some (substituted second (field (refKey, str (ρ n)))) :=
    rfl
  rw [hnew, hfield, andThen]
  rcases first n with - | body
  · simp [tokens, substituted_singleton, Token.newNames]
  · rfl

/-- A name of no fragment is none under the new names, either. -/
theorem resolution_renamed_of_none {n : String}
    (hfound : valueAt? (ρ n) others =
      (valueAt? n fragments).map (List.map fun m => (m.1, renamedAt ρ m.1 m.2)))
    (hn : valueAt? n fragments = none) :
    resolution others (ρ n) = (resolution fragments n).map (substituted (Token.newNames ρ)) := by
  rw [hn, Option.map_none] at hfound
  rw [resolution_eq_none hn, resolution_eq_none hfound, Option.map_none]

/-- A fragment is changed by later ones only, so its body is the same but for the names if theirs are. -/
theorem resolution_renamed_of_later (h : Ascending fragments) (h' : Ascending others)
    (hfound : ∀ n, valueAt? (ρ n) others =
      (valueAt? n fragments).map (List.map fun m => (m.1, renamedAt ρ m.1 m.2)))
    (horder : KeepsOrder ρ fragments) {f : String × List (String × Json)} (hf : f ∈ fragments)
    (hlater : ∀ g ∈ fragments, f.1 < g.1 → resolution others (ρ g.1) =
      (resolution fragments g.1).map (substituted (Token.newNames ρ))) :
    resolution others (ρ f.1) =
      (resolution fragments f.1).map (substituted (Token.newNames ρ)) := by
  have hvalue : valueAt? f.1 fragments = some f.2 := h.mem_iff.mp hf
  rw [resolution_of_ascending h', hfound, resolution_of_ascending h, hvalue]
  simp only [Option.map_some]
  rw [memberTokens_renamed, substituted_substituted_members, substituted_substituted_members]
  refine congrArg some (substituted_memberTokens_congr ((horder f hf).imp ?_))
  refine fun v => HasReferences.imp ?_
  intro n hn
  refine andThen_newNames ?_
  rw [laterResolution, laterResolution]
  by_cases hmem : n ∈ fragments.map (·.1)
  · simp only [hn hmem]
    split
    · rename_i hlt
      obtain ⟨g, hg, rfl⟩ := List.mem_map.mp hmem
      exact hlater g hg ((hn hmem).mpr hlt)
    · rfl
  · have hvalue : valueAt? n fragments = none :=
      valueAt?_eq_none_of_forall_ne fun e he heq => hmem (List.mem_map.mpr ⟨e, he, heq⟩)
    have hsame := resolution_renamed_of_none (hfound n) hvalue
    rw [resolution_eq_none hvalue] at hsame ⊢
    rw [hsame]
    simp

/-- **New names that keep the order change nothing but the names**, in what they stand for. -/
theorem resolution_renamed (h : Ascending fragments) (h' : Ascending others)
    (hfound : ∀ n, valueAt? (ρ n) others =
      (valueAt? n fragments).map (List.map fun m => (m.1, renamedAt ρ m.1 m.2)))
    (horder : KeepsOrder ρ fragments) (n : String) :
    resolution others (ρ n) =
      (resolution fragments n).map (substituted (Token.newNames ρ)) := by
  -- from the last fragment on: a body is changed by later ones only
  have hsome : ∀ f ∈ fragments, resolution others (ρ f.1) =
      (resolution fragments f.1).map (substituted (Token.newNames ρ)) :=
    h.induction_from_last fun f hf hlater =>
      resolution_renamed_of_later h h' hfound horder hf hlater
  rcases hvalue : valueAt? n fragments with - | members
  · exact resolution_renamed_of_none (hfound n) hvalue
  · exact hsome _ (mem_of_valueAt? hvalue)

/-! ## What is read -/

/-- The tokens of a document under new names, with its references replaced. -/
theorem substituted_renamed
    (hnames : ∀ n, resolution others (ρ n) =
      (resolution fragments n).map (substituted (Token.newNames ρ))) (v : Json) :
    substituted (resolution others) (v.renamed ρ).tokens =
      substituted (Token.newNames ρ) (substituted (resolution fragments) v.tokens) := by
  rw [tokens_renamed, substituted_substituted, substituted_substituted]
  exact congrArg (substituted · v.tokens) (funext fun n => andThen_newNames (hnames n))

/-- A row with a stray comma is not that of a value. -/
theorem ofTokens?_of_not_strayFree {ts : List Token} (h : ¬ ts.IsChain StrayFree) :
    ofTokens? ts = none :=
  Option.eq_none_iff_forall_ne_some.mpr fun _ hv => h (Builder.isChain_strayFree_of_some hv)

/-- Without stray commas the fragments are read in the place of their references, if the value with
them is not nested too deep. -/
theorem ofTokens?_of_strayFree {w : Json}
    (h : (substituted (resolution fragments) w.tokens).IsChain StrayFree) :
    ofTokens? (substituted (resolution fragments) w.tokens) =
      if (w.spliced (resolved fragments)).depth ≤ Builder.deepest then
        some (w.spliced (resolved fragments)).settled else none := by
  rw [substituted_tokens_of_strayFree standFor_resolved h, ofTokens?_tokens]

/-- **New names in a document**, that its fragments are declared under, too, are new names in what is
read. -/
theorem ofTokens?_renamed
    (hnames : ∀ n, resolution others (ρ n) =
      (resolution fragments n).map (substituted (Token.newNames ρ))) (w : Json) :
    ofTokens? (substituted (resolution others) (w.renamed ρ).tokens) =
      (ofTokens? (substituted (resolution fragments) w.tokens)).map (renamed ρ) := by
  have hrenamed := substituted_renamed hnames w
  by_cases hfree : (substituted (resolution fragments) w.tokens).IsChain StrayFree
  · rw [hrenamed, substituted_tokens_of_strayFree standFor_resolved hfree, ← tokens_renamed,
      ofTokens?_tokens, ofTokens?_tokens, depth_renamed, settled_renamed]
    split <;> rfl
  · -- new names leave the outline of a row as it is, and with it the stray commas
    have houtline : (substituted (resolution others) (w.renamed ρ).tokens).map outline =
        (substituted (resolution fragments) w.tokens).map outline := by
      rw [hrenamed, outline_newNames]
    rw [ofTokens?_of_not_strayFree hfree,
      ofTokens?_of_not_strayFree ((not_congr (isChain_strayFree_congr houtline)).mpr hfree)]
    rfl

/-- **New names of its fragments** change nothing else in what is read. -/
theorem ofTokens?_redeclared {w : Json} (hdeclares : Document.DeclaresObjects w) :
    Option.Rel Document.AlikeButFragments
      (ofTokens? (substituted (resolution fragments) (Document.redeclared ρ w).tokens))
      (ofTokens? (substituted (resolution fragments) w.tokens)) := by
  have houtline := @Document.outline_redeclared ρ (resolution fragments) _ hdeclares
  by_cases hfree : (substituted (resolution fragments) w.tokens).IsChain StrayFree
  · rw [ofTokens?_of_strayFree hfree,
      ofTokens?_of_strayFree ((isChain_strayFree_congr houtline).mpr hfree),
      Document.depth_redeclared hdeclares]
    split
    · exact .some fun key hkey => Document.member?_redeclared hdeclares hkey
    · exact .none
  · rw [ofTokens?_of_not_strayFree hfree,
      ofTokens?_of_not_strayFree ((not_congr (isChain_strayFree_congr houtline)).mpr hfree)]
    exact .none

/-- **A document under new names is read with its references replaced** exactly when it is read so
under its own, and as the same document under new names. -/
theorem ofTokens?_withNames {w : Json} (hobjects : Document.DeclaresObjects w)
    (hnames : ∀ n, resolution others (ρ n) =
      (resolution fragments n).map (substituted (Token.newNames ρ))) :
    Option.Rel Document.AlikeButFragments
      (ofTokens? (substituted (resolution others) (Document.withNames ρ w).tokens))
      ((ofTokens? (substituted (resolution fragments) w.tokens)).map (renamed ρ)) := by
  rw [Document.withNames, ← ofTokens?_renamed hnames]
  exact ofTokens?_redeclared (Document.declaresObjects_renamed hobjects)

end Fragments

end FeatureFlags
