import FeatureFlags.Proofs.Document.Strays

/-!
# Proofs/Document/Renaming — a document with its fragments under other names

`Json.renamed` gives other names to what a value refers to; `Document.withNames` gives them to the
fragments that a document declares as well.  New names keep the shape of a value, so a value under
new names is read as what is read, under new names (`Json.settled_renamed`), and new keys for the
fragments change nothing but the fragments (`Document.member?_redeclared`).
-/

namespace FeatureFlags

open Token

namespace Token

/-- Each name gives way to its new one, among tokens. -/
def newNames (ρ : String → String) (n : String) : Option (List Token) :=
  some [.str refKey, .colon, .str (ρ n)]

/-- New names do not show in the outline. -/
theorem outline_newNames (ρ : String → String) (ts : List Token) :
    (substituted (newNames ρ) ts).map outline = ts.map outline := by
  induction hlen : ts.length using Nat.strong_induction_on generalizing ts with
  | _ len ih =>
    rcases ts with - | ⟨t, ts⟩
    · rfl
    · by_cases href : ∃ n rest, t = .str refKey ∧ ts = .colon :: .str n :: rest
      · obtain ⟨n, rest, rfl, rfl⟩ := href
        have hrest := ih rest.length (by simp only [← hlen, List.length_cons]; omega) rest rfl
        rw [substituted_reference (show newNames ρ n = some _ from rfl)]
        simp [hrest, outline]
      · have hkept : substituted (newNames ρ) (t :: ts) = t :: substituted (newNames ρ) ts := by
          refine substituted_cons ?_
          intro n rest ht hts
          exact absurd ⟨n, rest, ht, hts⟩ href
        rw [hkept, List.map_cons, ih ts.length (by rw [← hlen]; simp) ts rfl, List.map_cons]

theorem outline_separated {rows others : List (List Token)}
    (h : rows.map (List.map outline) = others.map (List.map outline)) :
    (separated rows).map outline = (separated others).map outline := by
  have hmap (rows : List (List Token)) :
      (separated rows).map outline = separated (rows.map (List.map outline)) := by
    rcases rows with - | ⟨row, rest⟩
    · rfl
    · simp only [separated, List.map_append, List.map_cons, List.map_flatMap, List.flatMap_map]
      rfl
  rw [hmap, hmap, h]

end Token

namespace Json

variable {ρ : String → String}

/-! ## New names for references -/

/-- Each name gives way to its new one. -/
def newNames (ρ : String → String) (n : String) : Option (List (String × Json)) :=
  some [(refKey, str (ρ n))]

/-- **A value with new names in its references.** -/
def renamed (ρ : String → String) (v : Json) : Json := v.spliced (newNames ρ)

/-- **What stands under a key**, with new names: if the member is a reference, its own name is new. -/
def renamedAt (ρ : String → String) (key : String) (v : Json) : Json :=
  ((reference? (key, v)).map fun n => str (ρ n)).getD (v.renamed ρ)

/-- A member is a reference, or its value is renamed by itself. -/
theorem renamedAt_cases (ρ : String → String) (key : String) (v : Json) :
    (∃ n, key = refKey ∧ v = str n ∧ renamedAt ρ key v = str (ρ n)) ∨
      reference? (key, v) = none ∧ renamedAt ρ key v = v.renamed ρ := by
  rw [renamedAt]
  rcases hname : reference? (key, v) with - | n
  · exact .inr ⟨rfl, rfl⟩
  · obtain ⟨hkey, hv⟩ := Prod.mk.inj (reference?_eq_some_iff.mp hname)
    exact .inl ⟨n, hkey, hv, rfl⟩

theorem renamedAt_of_ne {key : String} (h : key ≠ refKey) (v : Json) :
    renamedAt ρ key v = v.renamed ρ := by
  rw [renamedAt, reference?, if_neg h]
  rfl

theorem splicedMember_newNames (m : String × Json) :
    splicedMember (newNames ρ) m = [(m.1, renamedAt ρ m.1 m.2)] := by
  rw [splicedMember, renamedAt]
  rcases hname : reference? m with - | n
  · rfl
  · obtain rfl := reference?_eq_some_iff.mp hname
    rfl

@[simp] theorem renamed_str (s : String) : (str s).renamed ρ = str s := rfl

theorem renamed_arr (items : List Json) :
    (arr items).renamed ρ = arr (items.map (renamed ρ)) := by
  rw [renamed, spliced, splicedItems_eq_map]
  rfl

theorem renamed_obj (members : List (String × Json)) :
    (obj members).renamed ρ = obj (members.map fun m => (m.1, renamedAt ρ m.1 m.2)) := by
  rw [renamed, spliced, splicedMembers_eq_flatMap,
    List.flatMap_congr fun m _ => splicedMember_newNames m, List.map_eq_flatMap]

/-! ### Among tokens -/

theorem isTidy_newNames (v : Json) : IsTidy (newNames ρ) v := by
  rcases v with - | - | - | - | - | members
  all_goals try trivial
  refine onMembers_obj.mpr (.inr ?_)
  intro g hg
  obtain ⟨m, -, rfl⟩ := List.mem_map.mp hg
  rw [splicedMember_newNames]
  exact List.cons_ne_nil _ _

/-- **The tokens of a value with new names.** -/
theorem tokens_renamed (v : Json) :
    (v.renamed ρ).tokens = substituted (Token.newNames ρ) v.tokens :=
  (substituted_tokens (fun _ => rfl) (all_of_forall isTidy_newNames v)).symm

/-- … and of members. -/
theorem memberTokens_renamed (members : List (String × Json)) :
    memberTokens (members.map fun m => (m.1, renamedAt ρ m.1 m.2)) =
      substituted (Token.newNames ρ) (memberTokens members) := by
  have h := @tokens_renamed ρ (obj members)
  rw [renamed_obj, tokens, tokens, substituted_braces] at h
  exact List.append_cancel_right (List.cons.inj h).2

/-! ### Reading -/

theorem membersDepth_eq (members : List (String × Json)) :
    membersDepth members = (members.map fun m => m.2.depth).foldr max 0 := by
  induction members with
  | nil => rfl
  | cons m rest ih =>
    rw [membersDepth, ih]
    rfl

theorem itemsDepth_eq (items : List Json) : itemsDepth items = (items.map depth).foldr max 0 := by
  induction items with
  | nil => rfl
  | cons v rest ih => rw [itemsDepth, ih, List.map_cons, List.foldr_cons]

/-- New names keep the depth. -/
theorem depth_renamed (v : Json) : (v.renamed ρ).depth = v.depth := by
  induction v using Json.induct with
  | null | bool | num | str => rfl
  | arr items ih =>
    rw [renamed_arr, depth, depth, itemsDepth_eq, itemsDepth_eq, List.map_map]
    exact congrArg (fun depths => depths.foldr max 0 + 1) (List.map_congr_left ih)
  | obj members ih =>
    rw [renamed_obj, depth, depth, membersDepth_eq, membersDepth_eq, List.map_map]
    refine congrArg (fun depths => depths.foldr max 0 + 1) (List.map_congr_left ?_)
    intro m hm
    rcases renamedAt_cases ρ m.1 m.2 with ⟨n, -, hv, hnew⟩ | ⟨-, hnew⟩
    · rw [Function.comp_apply, hnew, hv]
      rfl
    · rw [Function.comp_apply, hnew, ih m hm]

theorem reference?_settled (key : String) (v : Json) :
    reference? (key, v.settled) = reference? (key, v) := by
  rw [reference?, reference?]
  rcases v with - | - | - | - | - | - <;> rfl

/-- **New names and reading may be exchanged.** -/
theorem settled_renamed (v : Json) : (v.renamed ρ).settled = v.settled.renamed ρ := by
  induction v using Json.induct with
  | null | bool | num | str => rfl
  | arr items ih =>
    rw [renamed_arr, settled, settled, renamed_arr, settledItems_eq_map, settledItems_eq_map,
      List.map_map, List.map_map]
    exact congrArg arr (List.map_congr_left ih)
  | obj members ih =>
    have hvalue : ∀ m ∈ members, (renamedAt ρ m.1 m.2).settled = renamedAt ρ m.1 m.2.settled := by
      intro m hm
      rw [renamedAt, renamedAt, reference?_settled]
      rcases reference? (m.1, m.2) with - | n
      · exact ih m hm
      · rfl
    rw [renamed_obj, settled, settled, renamed_obj]
    exact congrArg obj (settledMembers_map (renamedAt ρ) hvalue [])

theorem isObject_renamed (v : Json) : (v.renamed ρ).isObject = v.isObject := isObject_spliced

/-- What stands under a key that is no reference's has new names in it. -/
theorem valueAt?_renamedAt {key : String} (h : key ≠ refKey) (members : List (String × Json)) :
    valueAt? key (members.map fun m => (m.1, renamedAt ρ m.1 m.2)) =
      (valueAt? key members).map (renamed ρ) := by
  rw [valueAt?_map, show renamedAt ρ key = renamed ρ from funext (renamedAt_of_ne h)]

theorem member?_renamed {key : String} (h : key ≠ refKey) (v : Json) :
    (v.renamed ρ).member? key = (v.member? key).map (renamed ρ) := by
  rcases v with - | - | - | - | - | members
  all_goals try rfl
  rw [renamed_obj]
  exact valueAt?_renamedAt h members

end Json

namespace Document

open Json

variable {ρ : String → String} {bodies : String → Option (List Token)}
  {σ : String → Option (List (String × Json))}

/-! ## New names for fragments -/

/-- An object with new keys. -/
def rekeyed (ρ : String → String) : Json → Json
  | obj members => obj (members.map fun m => (ρ m.1, m.2))
  | v => v

/-- A member with new keys for the fragments, if it declares them. -/
def redeclaredMember (ρ : String → String) (m : String × Json) : String × Json :=
  (m.1, if m.1 = "$evaluators" then rekeyed ρ m.2 else m.2)

/-- **A document with its fragments declared under new names.** -/
def redeclared (ρ : String → String) : Json → Json
  | obj members => obj (members.map (redeclaredMember ρ))
  | v => v

/-- **A document with its fragments under new names**, in every reference and where they are
declared. -/
def withNames (ρ : String → String) (w : Json) : Json := redeclared ρ (w.renamed ρ)

/-- The value, if an object, holds objects only. -/
def HoldsObjects : Json → Prop := OnMembers fun members => ∀ m ∈ members, m.2.isObject = true

/-- **Every fragment is an object**, as the document is written. -/
def DeclaresObjects : Json → Prop :=
  OnMembers fun members => ∀ m ∈ members, m.1 = "$evaluators" → HoldsObjects m.2

/-- An object is no reference. -/
theorem reference?_of_isObject {key : String} {v : Json} (h : v.isObject = true) :
    reference? (key, v) = none := by
  obtain ⟨members, rfl⟩ := exists_of_isObject h
  rw [reference?]
  split <;> rfl

theorem reference?_declaring (v : Json) : reference? ("$evaluators", v) = none :=
  if_neg (show "$evaluators" ≠ refKey by decide)

theorem piece_of_no_reference {m : String × Json} (h : reference? m = none) :
    piece bodies m = .str m.1 :: .colon :: substituted bodies m.2.tokens := by
  rw [piece, h]
  rfl

/-! ### Outlines -/

theorem outline_rekeyed {v : Json} (h : HoldsObjects v) :
    (substituted bodies (rekeyed ρ v).tokens).map outline =
      (substituted bodies v.tokens).map outline := by
  rcases v with - | - | - | - | - | members
  all_goals try rfl
  have hrows : (members.map fun m => (ρ m.1, m.2)).map (List.map outline ∘ piece bodies) =
      members.map (List.map outline ∘ piece bodies) := by
    rw [List.map_map]
    refine List.map_congr_left ?_
    intro m hm
    have hobject := onMembers_obj.mp h m hm
    simp only [Function.comp_apply]
    rw [piece_of_no_reference (reference?_of_isObject hobject),
      piece_of_no_reference (reference?_of_isObject hobject)]
    rfl
  rw [← List.map_map, ← List.map_map] at hrows
  rw [rekeyed, substituted_obj, substituted_obj]
  simp only [List.map_cons, List.map_append, outline_separated hrows]

/-- **New keys for the fragments do not show in the outline.** -/
theorem outline_redeclared {w : Json} (h : DeclaresObjects w) :
    (substituted bodies (redeclared ρ w).tokens).map outline =
      (substituted bodies w.tokens).map outline := by
  rcases w with - | - | - | - | - | members
  all_goals try rfl
  have hrows : (members.map (redeclaredMember ρ)).map (List.map outline ∘ piece bodies) =
      members.map (List.map outline ∘ piece bodies) := by
    rw [List.map_map]
    refine List.map_congr_left ?_
    rintro ⟨key, v⟩ hm
    simp only [Function.comp_apply, redeclaredMember]
    split
    · rename_i hkey
      obtain rfl : key = "$evaluators" := hkey
      rw [piece_of_no_reference (reference?_declaring _),
        piece_of_no_reference (reference?_declaring _)]
      simp only [List.map_cons, outline_rekeyed (onMembers_obj.mp h _ hm rfl)]
    · rfl
  rw [← List.map_map, ← List.map_map] at hrows
  rw [redeclared, substituted_obj, substituted_obj]
  simp only [List.map_cons, List.map_append, outline_separated hrows]

/-! ### Reading -/

theorem spliced_rekeyed {v : Json} (h : HoldsObjects v) :
    (rekeyed ρ v).spliced σ = rekeyed ρ (v.spliced σ) := by
  rcases v with - | - | - | - | - | members
  all_goals try rfl
  have hlink {key : String} {m : String × Json} (hm : m ∈ members) :
      (reference? (key, m.2)).bind σ = none := by
    rw [reference?_of_isObject (onMembers_obj.mp h m hm)]
    rfl
  have hmembers : IsUnlinked σ (obj members) := onMembers_obj.mpr fun m hm => hlink hm
  have hrekeyed : IsUnlinked σ (obj (members.map fun m => (ρ m.1, m.2))) :=
    onMembers_obj.mpr (List.forall_mem_map.mpr fun m hm => hlink hm)
  rw [rekeyed, spliced, spliced, rekeyed, hmembers.splicedMembers, hrekeyed.splicedMembers,
    List.map_map, List.map_map]
  rfl

theorem depth_rekeyed (v : Json) : (rekeyed ρ v).depth = v.depth := by
  rcases v with - | - | - | - | - | members
  all_goals try rfl
  rw [rekeyed, depth, depth, membersDepth_eq, membersDepth_eq, List.map_map]
  rfl

/-- What stands in the place of the member that declares the fragments. -/
theorem splicedMember_declaring (v : Json) :
    splicedMember σ ("$evaluators", v) = [("$evaluators", v.spliced σ)] := by
  rw [splicedMember, reference?_declaring]
  rfl

/-- … and of any member, with new keys for the fragments. -/
theorem splicedMember_redeclared {m : String × Json}
    (h : m.1 = "$evaluators" → HoldsObjects m.2) :
    splicedMember σ (redeclaredMember ρ m) = splicedMember σ m ∨
      m.1 = "$evaluators" ∧ splicedMember σ m = [(m.1, m.2.spliced σ)] ∧
        splicedMember σ (redeclaredMember ρ m) = [(m.1, rekeyed ρ (m.2.spliced σ))] := by
  obtain ⟨key, v⟩ := m
  rw [redeclaredMember]
  split
  · rename_i hkey
    obtain rfl : key = "$evaluators" := hkey
    refine .inr ⟨rfl, splicedMember_declaring v, ?_⟩
    rw [splicedMember_declaring, spliced_rekeyed (h rfl)]
  · exact .inl rfl

variable {w : Json}

/-- **New keys for the fragments keep the depth.** -/
theorem depth_redeclared (h : DeclaresObjects w) :
    ((redeclared ρ w).spliced σ).depth = (w.spliced σ).depth := by
  rcases w with - | - | - | - | - | members
  all_goals try rfl
  rw [redeclared, spliced, spliced, depth, depth, membersDepth_eq, membersDepth_eq,
    splicedMembers_eq_flatMap, splicedMembers_eq_flatMap, List.map_flatMap, List.map_flatMap,
    List.flatMap_map]
  refine congrArg (fun depths => depths.foldr max 0 + 1) (List.flatMap_congr ?_)
  intro m hm
  rcases @splicedMember_redeclared ρ σ m (onMembers_obj.mp h m hm) with hsame | ⟨-, hm, hnew⟩
  · rw [hsame]
  · rw [hm, hnew, List.map_singleton, List.map_singleton, depth_rekeyed]

/-- **New keys for the fragments change nothing but the fragments.** -/
theorem member?_redeclared (h : DeclaresObjects w) {key : String} (hkey : key ≠ "$evaluators") :
    ((redeclared ρ w).spliced σ).settled.member? key = (w.spliced σ).settled.member? key := by
  rcases w with - | - | - | - | - | members
  all_goals try rfl
  change valueAt? key (settledMembers (splicedMembers σ (members.map (redeclaredMember ρ))) []) =
    valueAt? key (settledMembers (splicedMembers σ members) [])
  have hfilter : (splicedMembers σ (members.map (redeclaredMember ρ))).filter (·.1 = key) =
      (splicedMembers σ members).filter (·.1 = key) := by
    rw [splicedMembers_eq_flatMap, splicedMembers_eq_flatMap, List.filter_flatMap,
      List.filter_flatMap, List.flatMap_map]
    refine List.flatMap_congr ?_
    intro m hm
    rcases @splicedMember_redeclared ρ σ m (onMembers_obj.mp h m hm) with hsame | ⟨hm, hold, hnew⟩
    · rw [hsame]
    · simp [hold, hnew, hm, Ne.symm hkey]
  rw [valueAt?_settledMembers, valueAt?_settledMembers, hfilter]

theorem holdsObjects_renamed {v : Json} (h : HoldsObjects v) :
    HoldsObjects (v.renamed ρ) := by
  cases v with
  | obj members =>
    rw [renamed_obj]
    refine onMembers_obj.mpr (List.forall_mem_map.mpr ?_)
    intro m hm
    have hobject := onMembers_obj.mp h m hm
    rw [renamedAt, reference?_of_isObject hobject]
    exact (isObject_renamed m.2).trans hobject
  | _ => trivial

theorem declaresObjects_renamed {w : Json} (h : DeclaresObjects w) :
    DeclaresObjects (w.renamed ρ) := by
  cases w with
  | obj members =>
    rw [renamed_obj]
    refine onMembers_obj.mpr (List.forall_mem_map.mpr ?_)
    intro m hm hkey
    have hne : m.1 ≠ refKey := by
      rw [show m.1 = "$evaluators" from hkey]
      decide
    rw [renamedAt_of_ne hne]
    exact holdsObjects_renamed (onMembers_obj.mp h m hm hkey)
  | _ => trivial

/-- Two documents are alike but for the fragments that they declare. -/
def AlikeButFragments (v u : Json) : Prop :=
  ∀ key, key ≠ "$evaluators" → v.member? key = u.member? key

theorem isObject_redeclared : (redeclared ρ w).isObject = w.isObject := by
  rcases w with - | - | - | - | - | - <;> rfl

end Document

end FeatureFlags
