import FeatureFlags.Proofs.Document.Splicing

/-!
# Proofs/Document/Inlining — references replaced in a value

`Json.spliced` puts the members a name stands for in the place of a reference to it, member by
member.  As long as no member vanishes beside another, the tokens of the value are those with the
references replaced (`Json.substituted_tokens`).  Where references stand alone in their objects,
reading goes well with it (`Json.settled_spliced`), and a reference gives way to a whole object
(`Json.spliced_eq_inlined`).
-/

namespace FeatureFlags

namespace Json

open Token

variable {bodies : String → Option (List Token)} {σ : String → Option (List (String × Json))}

/-! ## Replacing members -/

mutual

/-- **A value with its references replaced** by the members that their names stand for. -/
def spliced (σ : String → Option (List (String × Json))) : Json → Json
  | null => null
  | bool b => bool b
  | num n => num n
  | str s => str s
  | arr items => arr (splicedItems σ items)
  | obj members => obj (splicedMembers σ members)

def splicedItems (σ : String → Option (List (String × Json))) : List Json → List Json
  | [] => []
  | v :: rest => v.spliced σ :: splicedItems σ rest

def splicedMembers (σ : String → Option (List (String × Json))) :
    List (String × Json) → List (String × Json)
  | [] => []
  | (key, v) :: rest =>
    ((reference? (key, v)).bind σ).getD [(key, v.spliced σ)] ++ splicedMembers σ rest

end

theorem exists_of_isObject {v : Json} (h : v.isObject = true) : ∃ members, v = obj members := by
  cases v with
  | obj members => exact ⟨members, rfl⟩
  | _ => cases h

theorem isObject_spliced {v : Json} : (v.spliced σ).isObject = v.isObject := by
  cases v <;> rfl

/-- What stands in the place of a member. -/
def splicedMember (σ : String → Option (List (String × Json))) (m : String × Json) :
    List (String × Json) :=
  ((reference? m).bind σ).getD [(m.1, m.2.spliced σ)]

theorem splicedItems_eq_map (items : List Json) :
    splicedItems σ items = items.map (spliced σ) := by
  induction items with
  | nil => rfl
  | cons v rest ih => rw [splicedItems, ih, List.map_cons]

theorem splicedMembers_eq_flatMap (members : List (String × Json)) :
    splicedMembers σ members = members.flatMap (splicedMember σ) := by
  induction members with
  | nil => rfl
  | cons m rest ih =>
    rw [splicedMembers, ih, List.flatMap_cons]
    rfl

/-- **No member vanishes beside another.** -/
def Tidy (groups : List (List (String × Json))) : Prop :=
  groups.length ≤ 1 ∨ ∀ g ∈ groups, g ≠ []

theorem separated_append {rows others : List (List Token)} (hrows : rows ≠ []) (hothers : others ≠ []) :
    separated (rows ++ others) = separated rows ++ .comma :: separated others := by
  obtain ⟨row, rows, rfl⟩ := List.exists_cons_of_ne_nil hrows
  obtain ⟨other, others, rfl⟩ := List.exists_cons_of_ne_nil hothers
  simp [separated]

theorem memberTokens_append {members others : List (String × Json)} (hmembers : members ≠ [])
    (hothers : others ≠ []) :
    memberTokens (members ++ others) = memberTokens members ++ .comma :: memberTokens others := by
  rw [memberTokens_eq, List.map_append, separated_append (by simpa using hmembers)
    (by simpa using hothers), ← memberTokens_eq, ← memberTokens_eq]

/-- The rows of tidy groups are the row of all their members. -/
theorem separated_memberTokens {groups : List (List (String × Json))} (h : Tidy groups) :
    separated (groups.map memberTokens) = memberTokens groups.flatten := by
  have hfull {groups : List (List (String × Json))} (h : ∀ g ∈ groups, g ≠ []) :
      separated (groups.map memberTokens) = memberTokens groups.flatten := by
    induction groups with
    | nil => rfl
    | cons g rest ih =>
      obtain ⟨hg, hrest⟩ := List.forall_mem_cons.mp h
      cases rest with
      | nil => simp [separated]
      | cons g' rest =>
        have hflat : (g' :: rest).flatten ≠ [] := by simp [hrest g' List.mem_cons_self]
        rw [List.flatten_cons, memberTokens_append hg hflat, ← ih hrest, List.map_cons,
          ← List.singleton_append, separated_append (by simp) (by simp)]
        simp [separated]
  rcases h with hlength | hne
  · cases groups with
    | nil => rfl
    | cons g rest =>
      obtain rfl : rest = [] := by simpa using hlength
      simp [separated]
  · exact hfull hne

/-- No member of the value vanishes beside another, if it is an object. -/
def IsTidy (σ : String → Option (List (String × Json))) : Json → Prop :=
  OnMembers fun members => Tidy (members.map (splicedMember σ))

theorem piece_eq_memberTokens (hbodies : ∀ n, bodies n = (σ n).map memberTokens)
    {m : String × Json} (h : substituted bodies m.2.tokens = (m.2.spliced σ).tokens) :
    piece bodies m = memberTokens (splicedMember σ m) := by
  rw [piece, splicedMember]
  cases hname : reference? m with
  | none => simp [memberTokens, moreMembers, h]
  | some n =>
    rw [Option.bind_some, Option.bind_some, hbodies]
    cases hσ : σ n with
    | none => simp [memberTokens, moreMembers, h]
    | some group => rfl

/-- **Replacing references in a value replaces them among its tokens**, as long as no member vanishes
beside another. -/
theorem substituted_tokens (hbodies : ∀ n, bodies n = (σ n).map memberTokens) {v : Json}
    (h : All (IsTidy σ) v) : substituted bodies v.tokens = (v.spliced σ).tokens := by
  induction v using Json.induct with
  | null | bool | num | str => simp [tokens, substituted_singleton, spliced]
  | arr items ih =>
    have hitems : items.map (fun v => substituted bodies v.tokens) =
        (splicedItems σ items).map tokens := by
      rw [splicedItems_eq_map, List.map_map]
      exact List.map_congr_left fun v hv => ih v hv ((all_arr.mp h).2 v hv)
    rw [substituted_arr, spliced, tokens, itemTokens_eq, hitems]
  | obj members ih =>
    obtain ⟨htidy, hmembers⟩ := all_obj.mp h
    have hpieces : members.map (piece bodies) =
        (members.map (splicedMember σ)).map memberTokens := by
      rw [List.map_map]
      exact List.map_congr_left fun m hm => piece_eq_memberTokens hbodies (ih m hm (hmembers m hm))
    rw [substituted_obj, spliced, tokens, hpieces, separated_memberTokens (onMembers_obj.mp htidy),
      splicedMembers_eq_flatMap, List.flatMap_def]

/-- … and among the tokens of members. -/
theorem substituted_memberTokens (hbodies : ∀ n, bodies n = (σ n).map memberTokens)
    {members : List (String × Json)} (h : All (IsTidy σ) (obj members)) :
    substituted bodies (memberTokens members) = memberTokens (splicedMembers σ members) := by
  have htokens := substituted_tokens hbodies h
  rw [tokens, substituted_braces, spliced, tokens] at htokens
  exact List.append_cancel_right (List.cons.inj htokens).2

/-! ## References that stand alone -/

/-- **A reference to a name stands alone** in its object. -/
def HasLoneReferences (names : String → Prop) : Json → Prop :=
  OnMembers fun members =>
    ∀ n, names n → (refKey, str n) ∈ members → members = [(refKey, str n)]

/-- **The key of a reference stands alone** in its object, whatever it refers to. -/
def HasLoneReferenceKey : Json → Prop :=
  OnMembers fun members => refKey ∈ members.map (·.1) → members.length = 1

instance : DecidablePred HasLoneReferenceKey :=
  inferInstanceAs (DecidablePred (OnMembers fun members =>
    refKey ∈ members.map (·.1) → members.length = 1))

/-- The value, if an object, refers to no name that stands for anything. -/
def IsUnlinked (σ : String → Option (List (String × Json))) : Json → Prop :=
  OnMembers fun members => ∀ m ∈ members, (reference? m).bind σ = none

variable {names : String → Prop} {members : List (String × Json)}

theorem HasLoneReferenceKey.hasLoneReferences {v : Json} (h : HasLoneReferenceKey v) :
    HasLoneReferences names v := by
  refine OnMembers.imp (fun members hlength n _ hm => ?_) h
  obtain ⟨m, rfl⟩ := List.length_eq_one_iff.mp (hlength (List.mem_map_of_mem hm))
  rw [List.mem_singleton.mp hm]

/-- An object either is a reference or holds none. -/
theorem HasLoneReferences.cases (hnames : ∀ n group, σ n = some group → names n)
    (h : HasLoneReferences names (obj members)) :
    (∃ n group, members = [(refKey, str n)] ∧ σ n = some group ∧
        splicedMembers σ members = group) ∨ IsUnlinked σ (obj members) := by
  by_cases href : ∃ m ∈ members, ∃ group, (reference? m).bind σ = some group
  · left
    obtain ⟨m, hm, group, hgroup⟩ := href
    obtain ⟨n, hn, hσ⟩ := Option.bind_eq_some_iff.mp hgroup
    obtain rfl := reference?_eq_some_iff.mp hn
    have hmembers := onMembers_obj.mp h n (hnames n group hσ) hm
    refine ⟨n, group, hmembers, hσ, ?_⟩
    rw [hmembers, splicedMembers_eq_flatMap, List.flatMap_singleton, splicedMember, hgroup,
      Option.getD_some]
  · refine .inr (onMembers_obj.mpr fun m hm => ?_)
    cases hgroup : (reference? m).bind σ with
    | none => rfl
    | some group => exact absurd ⟨m, hm, group, hgroup⟩ href

theorem IsUnlinked.splicedMember (h : IsUnlinked σ (obj members)) {m : String × Json}
    (hm : m ∈ members) : splicedMember σ m = [(m.1, m.2.spliced σ)] := by
  rw [Json.splicedMember, onMembers_obj.mp h m hm, Option.getD_none]

/-- Without references each member keeps its place. -/
theorem IsUnlinked.splicedMembers (h : IsUnlinked σ (obj members)) :
    splicedMembers σ members = members.map fun m => (m.1, m.2.spliced σ) := by
  rw [splicedMembers_eq_flatMap, List.flatMap_congr fun m hm => h.splicedMember hm,
    List.map_eq_flatMap]

/-- **Where references stand alone** no member vanishes beside another. -/
theorem HasLoneReferences.isTidy (hnames : ∀ n group, σ n = some group → names n) {v : Json}
    (h : HasLoneReferences names v) : IsTidy σ v := by
  cases v with
  | obj members =>
    refine onMembers_obj.mpr ?_
    rcases h.cases hnames with ⟨n, group, rfl, -, -⟩ | hunlinked
    · exact .inl (Nat.le_refl 1)
    · refine .inr fun g hg => ?_
      obtain ⟨m, hm, rfl⟩ := List.mem_map.mp hg
      simp [hunlinked.splicedMember hm]
  | _ => trivial

/-! ### Reading -/

/-- A string is read from a string only. -/
theorem eq_of_settled_eq_str {v : Json} {s : String} (h : v.settled = str s) : v = str s := by
  cases v with
  | str => exact h
  | _ => cases h

/-- A reference is read from a reference only. -/
theorem mem_of_reference_mem_settledMembers {n : String}
    (h : (refKey, str n) ∈ settledMembers members []) : (refKey, str n) ∈ members := by
  rcases mem_settledMembers h with h | ⟨⟨key, v⟩, hm, he⟩
  · cases h
  · obtain ⟨rfl, hv⟩ := Prod.mk.inj he
    obtain rfl := eq_of_settled_eq_str hv.symm
    exact hm

/-- Reading keeps references alone. -/
theorem HasLoneReferences.settled {v : Json} (h : HasLoneReferences names v) :
    HasLoneReferences names v.settled := by
  cases v with
  | obj members =>
    refine onMembers_obj.mpr fun n hn hmem => ?_
    rw [onMembers_obj.mp h n hn (mem_of_reference_mem_settledMembers hmem)]
    rfl
  | _ => trivial

theorem IsUnlinked.settled {v : Json} (h : IsUnlinked σ v) : IsUnlinked σ v.settled := by
  cases v with
  | obj members =>
    refine onMembers_obj.mpr fun e he => ?_
    cases hname : reference? e with
    | none => rfl
    | some n =>
      obtain rfl := reference?_eq_some_iff.mp hname
      rw [← hname]
      exact onMembers_obj.mp h _ (mem_of_reference_mem_settledMembers he)
  | _ => trivial

theorem insertEntry_map (f : String → Json → Json) (key : String) (v : Json)
    (done : List (String × Json)) :
    insertEntry key (f key v) (done.map fun m => (m.1, f m.1 m.2)) =
      (insertEntry key v done).map fun m => (m.1, f m.1 m.2) := by
  induction done with
  | nil => rfl
  | cons e rest ih =>
    simp only [insertEntry, List.map_cons]
    split
    · rfl
    · split
      · rw [ih, List.map_cons]
      · rfl

/-- Members changed in their values are read as the changed members that are read. -/
theorem settledMembers_map (f : String → Json → Json) {members : List (String × Json)}
    (h : ∀ m ∈ members, (f m.1 m.2).settled = f m.1 m.2.settled) (done : List (String × Json)) :
    settledMembers (members.map fun m => (m.1, f m.1 m.2)) (done.map fun m => (m.1, f m.1 m.2)) =
      (settledMembers members done).map fun m => (m.1, f m.1 m.2) := by
  induction members generalizing done with
  | nil => rfl
  | cons m rest ih =>
    obtain ⟨hm, hrest⟩ := List.forall_mem_cons.mp h
    rw [List.map_cons, settledMembers, hm, insertEntry_map, ih hrest]
    rfl

/-- **Replacing references and reading may be exchanged**, where references stand alone. -/
theorem settled_spliced (hnames : ∀ n group, σ n = some group → names n)
    (hgroups : ∀ n group, σ n = some group → (obj group).settled = obj group) {v : Json}
    (h : All (HasLoneReferences names) v) : (v.spliced σ).settled = v.settled.spliced σ := by
  induction v using Json.induct with
  | null | bool | num | str => rfl
  | arr items ih =>
    simp only [spliced, settled, splicedItems_eq_map, settledItems_eq_map, List.map_map]
    exact congrArg arr (List.map_congr_left fun v hv => ih v hv ((all_arr.mp h).2 v hv))
  | obj members ih =>
    obtain ⟨hlone, hmembers⟩ := all_obj.mp h
    rcases hlone.cases hnames with ⟨n, group, rfl, hσ, hspliced⟩ | hunlinked
    · rw [spliced, hspliced, hgroups n group hσ]
      exact congrArg obj hspliced.symm
    · have hread : IsUnlinked σ (obj (settledMembers members [])) := hunlinked.settled
      rw [spliced, hunlinked.splicedMembers, settled, settled, spliced, hread.splicedMembers]
      exact congrArg obj
        (settledMembers_map (fun _ => spliced σ) (fun m hm => ih m hm (hmembers m hm)) [])

/-! ### What replacing keeps -/

/-- **A property of all objects passes to the value with its references replaced**, if it holds in
what they stand for and each object without references keeps it. -/
theorem All.spliced {p q : Json → Prop} (hp : ∀ v, IsUnlinked σ v → p v → q (v.spliced σ))
    (hnames : ∀ n group, σ n = some group → names n)
    (hgroups : ∀ n group, σ n = some group → All q (obj group)) {v : Json}
    (hlone : All (HasLoneReferences names) v) (h : All p v) : All q (v.spliced σ) := by
  induction v using Json.induct with
  | null | bool | num | str =>
    refine (all_leaf rfl).mpr (hp _ ?_ h.self)
    trivial
  | arr items ih =>
    have hself := hp (arr items) trivial h.self
    rw [Json.spliced, splicedItems_eq_map] at hself ⊢
    refine all_arr.mpr ⟨hself, fun u hu => ?_⟩
    obtain ⟨v, hv, rfl⟩ := List.mem_map.mp hu
    exact ih v hv ((all_arr.mp hlone).2 v hv) ((all_arr.mp h).2 v hv)
  | obj members ih =>
    rcases hlone.self.cases hnames with ⟨n, group, -, hσ, hspliced⟩ | hunlinked
    · rw [Json.spliced, hspliced]
      exact hgroups n group hσ
    · have hself := hp _ hunlinked h.self
      rw [Json.spliced, hunlinked.splicedMembers] at hself ⊢
      refine all_obj.mpr ⟨hself, fun e he => ?_⟩
      obtain ⟨m, hm, rfl⟩ := List.mem_map.mp he
      exact ih m hm ((all_obj.mp hlone).2 m hm) ((all_obj.mp h).2 m hm)

theorem HasKeys.spliced {keys : String → Prop} {v : Json} (hunlinked : IsUnlinked σ v)
    (h : HasKeys keys v) : HasKeys keys (v.spliced σ) := by
  cases v with
  | obj members =>
    rw [Json.spliced, hunlinked.splicedMembers]
    exact onMembers_obj.mpr (List.forall_mem_map.mpr (onMembers_obj.mp h))
  | _ => trivial

theorem HasDistinctKeys.spliced {v : Json} (hunlinked : IsUnlinked σ v) (h : HasDistinctKeys v) :
    HasDistinctKeys (v.spliced σ) := by
  cases v with
  | obj members =>
    rw [Json.spliced, hunlinked.splicedMembers]
    refine onMembers_obj.mpr ?_
    rw [List.map_map]
    exact onMembers_obj.mp h
  | _ => trivial

theorem IsReadable.spliced {v : Json} (h : IsReadable v) : IsReadable (v.spliced σ) := by
  cases v with
  | num n => exact h
  | _ => trivial

theorem eq_of_spliced_eq_str {v : Json} {s : String} (h : v.spliced σ = str s) : v = str s := by
  cases v with
  | str => exact h
  | _ => cases h

/-- **Nothing is left to replace** where references have been, if what they stand for holds none. -/
theorem IsUnlinked.spliced {v : Json} (h : IsUnlinked σ v) : IsUnlinked σ (v.spliced σ) := by
  cases v with
  | obj members =>
    rw [Json.spliced, h.splicedMembers]
    refine onMembers_obj.mpr (List.forall_mem_map.mpr fun m hm => ?_)
    obtain ⟨key, v⟩ := m
    cases hname : reference? (key, v.spliced σ) with
    | none => rfl
    | some n =>
      obtain ⟨rfl, hv⟩ := Prod.mk.inj (reference?_eq_some_iff.mp hname)
      obtain rfl := eq_of_spliced_eq_str hv
      rw [← hname]
      exact onMembers_obj.mp h _ hm
  | _ => trivial

/-- A name that stands for something is not referred to. -/
theorem IsUnlinked.hasLoneReferences (hσ : ∀ n, names n → σ n ≠ none) {v : Json}
    (h : IsUnlinked σ v) : HasLoneReferences names v := by
  cases v with
  | obj members =>
    refine onMembers_obj.mpr fun n hn hmem => absurd ?_ (hσ n hn)
    have hnone := onMembers_obj.mp h _ hmem
    rwa [reference?_eq_some_iff.mpr rfl] at hnone
  | _ => trivial

/-- **Without references nothing is replaced.** -/
theorem spliced_of_isUnlinked {v : Json} (h : All (IsUnlinked σ) v) : v.spliced σ = v := by
  induction v using Json.induct with
  | null | bool | num | str => rfl
  | arr items ih =>
    rw [spliced, splicedItems_eq_map]
    exact congrArg arr ((List.map_congr_left fun v hv => ih v hv ((all_arr.mp h).2 v hv)).trans
      (List.map_id _))
  | obj members ih =>
    obtain ⟨hunlinked, hmembers⟩ := all_obj.mp h
    rw [spliced, hunlinked.splicedMembers]
    refine congrArg obj ((List.map_congr_left fun m hm => ?_).trans (List.map_id _))
    rw [ih m hm (hmembers m hm), id]

theorem spliced_none (v : Json) : v.spliced (fun _ => none) = v := by
  refine spliced_of_isUnlinked (all_of_forall (fun v => ?_) v)
  cases v with
  | obj members =>
    intro m _
    cases reference? m <;> rfl
  | _ => trivial

/-! ## Whole objects -/

/-- The value that these members refer to, if they are a reference. -/
def referent? (declared : List (String × Json)) : List (String × Json) → Option Json
  | [m] => (reference? m).bind (valueAt? · declared)
  | _ => none

mutual

/-- **A value with every reference replaced, as a whole**, by the value declared under its name. -/
def inlined (declared : List (String × Json)) : Json → Json
  | null => null
  | bool b => bool b
  | num n => num n
  | str s => str s
  | arr items => arr (inlinedItems declared items)
  | obj members => (referent? declared members).getD (obj (inlinedMembers declared members))

def inlinedItems (declared : List (String × Json)) : List Json → List Json
  | [] => []
  | v :: rest => v.inlined declared :: inlinedItems declared rest

def inlinedMembers (declared : List (String × Json)) :
    List (String × Json) → List (String × Json)
  | [] => []
  | (key, v) :: rest => (key, v.inlined declared) :: inlinedMembers declared rest

end

theorem inlinedItems_eq_map (declared : List (String × Json)) (items : List Json) :
    inlinedItems declared items = items.map (inlined declared) := by
  induction items with
  | nil => rfl
  | cons v rest ih => rw [inlinedItems, ih, List.map_cons]

theorem inlinedMembers_eq_map (declared members : List (String × Json)) :
    inlinedMembers declared members = members.map fun m => (m.1, m.2.inlined declared) := by
  induction members with
  | nil => rfl
  | cons m rest ih =>
    rw [inlinedMembers, ih]
    rfl

/-- What holds no reference names nothing that is declared. -/
theorem referent?_of_isUnlinked {declared members : List (String × Json)}
    (hdeclared : ∀ n, (σ n).map obj = valueAt? n declared) (h : IsUnlinked σ (obj members)) :
    referent? declared members = none := by
  rw [referent?.eq_def]
  split
  · rename_i m
    have hm := onMembers_obj.mp h m List.mem_cons_self
    cases hname : reference? m with
    | none => rfl
    | some n =>
      rw [hname, Option.bind_some] at hm
      rw [Option.bind_some, ← hdeclared, hm, Option.map_none]
  · rfl

/-- **References that stand alone are replaced as a whole.** -/
theorem spliced_eq_inlined {declared : List (String × Json)}
    (hdeclared : ∀ n, (σ n).map obj = valueAt? n declared)
    (hnames : ∀ n group, σ n = some group → names n) {v : Json}
    (h : All (HasLoneReferences names) v) : v.spliced σ = v.inlined declared := by
  induction v using Json.induct with
  | null | bool | num | str => rfl
  | arr items ih =>
    rw [spliced, inlined, splicedItems_eq_map, inlinedItems_eq_map]
    exact congrArg arr (List.map_congr_left fun v hv => ih v hv ((all_arr.mp h).2 v hv))
  | obj members ih =>
    obtain ⟨hlone, hmembers⟩ := all_obj.mp h
    rw [spliced, inlined]
    rcases hlone.cases hnames with ⟨n, group, rfl, hσ, hspliced⟩ | hunlinked
    · have href : reference? (refKey, str n) = some n := reference?_eq_some_iff.mpr rfl
      rw [hspliced, referent?, href, Option.bind_some, ← hdeclared, hσ]
      rfl
    · rw [referent?_of_isUnlinked hdeclared hunlinked, hunlinked.splicedMembers,
        inlinedMembers_eq_map, Option.getD_none]
      refine congrArg obj (List.map_congr_left fun m hm => ?_)
      rw [ih m hm (hmembers m hm)]

end Json

/-! ## Fragments -/

namespace Fragments

open Json

variable {fragments : List (String × List (String × Json))} {names : String → Prop}

/-- **The members that each name stands for in the end**: those of its fragment, with what the later
fragments make of them. -/
def resolved : List (String × List (String × Json)) → String → Option (List (String × Json))
  | [], _ => none
  | f :: rest, n => if n = f.1 then some (splicedMembers (resolved rest) f.2) else resolved rest n

theorem mem_of_resolved {n : String} {group : List (String × Json)}
    (h : resolved fragments n = some group) : n ∈ fragments.map (·.1) := by
  induction fragments with
  | nil => cases h
  | cons f rest ih =>
    rw [resolved] at h
    split at h
    · subst n
      exact List.mem_cons_self
    · exact List.mem_cons_of_mem _ (ih h)

theorem names_of_resolved (hnames : ∀ f ∈ fragments, names f.1) (n : String)
    (group : List (String × Json)) (h : resolved fragments n = some group) : names n := by
  obtain ⟨f, hf, rfl⟩ := List.mem_map.mp (mem_of_resolved h)
  exact hnames f hf

theorem resolved_ne_none {n : String} (h : n ∈ fragments.map (·.1)) : resolved fragments n ≠ none := by
  induction fragments with
  | nil => cases h
  | cons f rest ih =>
    rw [resolved]
    split
    · simp
    · rename_i hn
      exact ih ((List.mem_cons.mp h).resolve_left hn)

/-- What the names stand for among tokens, where references stand alone. -/
theorem resolution_eq (hnames : ∀ f ∈ fragments, names f.1)
    (h : ∀ f ∈ fragments, All (HasLoneReferences names) (obj f.2)) :
    ∀ n, resolution fragments n = (resolved fragments n).map memberTokens := by
  induction fragments with
  | nil => exact fun n => rfl
  | cons f rest ih =>
    obtain ⟨hf, hrest⟩ := List.forall_mem_cons.mp h
    obtain ⟨-, hnames⟩ := List.forall_mem_cons.mp hnames
    have hresolved := names_of_resolved hnames
    intro n
    rw [resolution_cons, resolved]
    split
    · exact congrArg some
        (substituted_memberTokens (ih hnames hrest) (hf.imp fun _ hv => hv.isTidy hresolved))
    · exact ih hnames hrest n

/-- What a name stands for reads as it is, if the bodies do. -/
theorem settled_resolved (hnames : ∀ f ∈ fragments, names f.1)
    (h : ∀ f ∈ fragments, All (HasLoneReferences names) (obj f.2))
    (hsettled : ∀ f ∈ fragments, (obj f.2).settled = obj f.2) :
    ∀ n group, resolved fragments n = some group → (obj group).settled = obj group := by
  induction fragments with
  | nil =>
    intro n group hn
    cases hn
  | cons f rest ih =>
    obtain ⟨hf, hrest⟩ := List.forall_mem_cons.mp h
    obtain ⟨-, hnames⟩ := List.forall_mem_cons.mp hnames
    obtain ⟨hfixed, hsettled⟩ := List.forall_mem_cons.mp hsettled
    have hresolved := names_of_resolved hnames
    intro n group hn
    rw [resolved] at hn
    split at hn
    · obtain rfl := Option.some.inj hn
      have hexchange := settled_spliced hresolved (ih hnames hrest hsettled) hf
      rw [hfixed, spliced] at hexchange
      exact hexchange
    · exact ih hnames hrest hsettled n group hn

end Fragments

end FeatureFlags
