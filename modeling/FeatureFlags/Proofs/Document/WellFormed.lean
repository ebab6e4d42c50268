import FeatureFlags.Proofs.Collections.Results
import FeatureFlags.Proofs.Document.Parsing
import FeatureFlags.Proofs.Document.Printing

/-!
# Proofs/Document/WellFormed — a text with its fragments inlined is well formed

A text is well formed when it writes a value, however deep (`Fragments.WellFormed`).  A pass that puts
the members of a fragment into the place of references keeps it so (`Fragments.WellFormed.replace`):
the commas around a reference then stand between the members of the fragment and those beside it.  A
fragment without members would leave a comma beside nothing, so references to it must stand alone
between their braces; and the name of a fragment must be one string as the text spells it.

Then the reader takes what is left, if it is not nested too deep, and a document is never refused for
being no JSON (`Document.wellFormed_inlined`).
-/

namespace FeatureFlags

/-! ## What becomes of rows -/

namespace Token

variable {plain : String → Prop} {alone : Prop} {n : String} {body : List Token} {p q : Token}

/-- What comes first of what stands behind a row. -/
theorem head?_append_getD (xs ys : List Token) (q : Token) :
    (xs ++ ys).head?.getD q = xs.head?.getD (ys.head?.getD q) := by
  cases xs <;> rfl

/-- A token by itself stays. -/
theorem Rewrites.eq_of_singleton {t : Token} {us : List Token}
    (h : Rewrites plain alone n body p q [t] us) : us = [t] := by
  cases h with
  | keep _ h =>
    cases h
    rfl

/-- **Nothing is swapped across a border** that begins with neither a colon nor a string. -/
theorem Rewrites.exists_append {xs ys zs : List Token}
    (hys : ∀ t ∈ ys.head?, t ≠ .colon ∧ ∀ s, t ≠ .str s)
    (h : Rewrites plain alone n body p q (xs ++ ys) zs) :
    ∃ us vs, zs = us ++ vs ∧ Rewrites plain alone n body p (ys.head?.getD q) xs us ∧
      Rewrites plain alone n body (xs.getLast?.getD p) q ys vs := by
  -- a swap takes three tokens at once; the border is none of the last two, so it takes them on one side
  generalize hts : xs ++ ys = ts at h
  induction h generalizing xs with
  | nil =>
    obtain ⟨rfl, rfl⟩ := List.append_eq_nil_iff.mp hts
    exact ⟨[], [], rfl, .nil, .nil⟩
  | @keep p q t ts us hkept h ih =>
    cases xs with
    | nil =>
      subst hts
      exact ⟨[], t :: us, rfl, .nil, .keep hkept h⟩
    | cons x xs =>
      obtain ⟨rfl, rfl⟩ := List.cons.inj hts
      obtain ⟨us, vs, rfl, hus, hvs⟩ := ih rfl
      refine ⟨x :: us, vs, rfl, .keep (fun hkey hname rest heq => ?_) hus, ?_⟩
      · exact hkept hkey hname (rest ++ ys) (congrArg (· ++ ys) heq)
      · rwa [List.getLast?_cons]
  | @swap p q key s row ts us htakes hname halone h ih =>
    cases xs with
    | nil =>
      subst hts
      exact absurd rfl ((hys (.str key) rfl).2 key)
    | cons x xs =>
      obtain ⟨rfl, hxs⟩ := List.cons.inj hts
      obtain ⟨rest, rfl⟩ := exists_eq_of_append_eq hys hxs
      obtain rfl : rest ++ ys = ts := by simpa using hxs
      obtain ⟨us, vs, rfl, hus, hvs⟩ := ih rfl
      have hbraces (ha : alone) (hrow : row = []) : p = .openBrace ∧
          rest.head?.getD (ys.head?.getD q) = .closeBrace := by
        rw [← head?_append_getD]
        exact halone ha hrow
      refine ⟨row ++ us, vs, (List.append_assoc ..).symm, .swap htakes hname hbraces hus, ?_⟩
      simpa [List.getLast?_cons] using hvs

section Rows

variable {α β : Type} {f : α → List Token} {g : β → List Token} {xs : List α} {zs : List Token}

/-- A row is rewritten apart from those behind it. -/
theorem Rewrites.exists_append_rows {row : List Token}
    (h : Rewrites plain alone n body p q (row ++ (xs.map f).flatMap (comma :: ·)) zs) :
    ∃ us vs, zs = us ++ vs ∧
      Rewrites plain alone n body p (((xs.map f).flatMap (comma :: ·)).head?.getD q) row us ∧
      Rewrites plain alone n body (row.getLast?.getD p) q ((xs.map f).flatMap (comma :: ·)) vs :=
  h.exists_append fun t ht => by
    obtain rfl : t = comma := by cases xs <;> simp_all
    exact ⟨nofun, nofun⟩

/-- Rows with a comma before each are rewritten row by row. -/
theorem Rewrites.exists_moreRows {P : β → Prop}
    (hrows : ∀ x ∈ xs, ∀ q us, Rewrites plain alone n body comma q (f x) us → ∃ y, P y ∧ us = g y)
    (h : Rewrites plain alone n body p q ((xs.map f).flatMap (comma :: ·)) zs) :
    ∃ ys : List β, ys.length = xs.length ∧ (∀ y ∈ ys, P y) ∧
      zs = (ys.map g).flatMap (comma :: ·) := by
  induction xs generalizing p zs with
  | nil =>
    cases h
    exact ⟨[], rfl, by simp, rfl⟩
  | cons x xs ih =>
    obtain ⟨hx, hxs⟩ := List.forall_mem_cons.mp hrows
    rw [List.map_cons, List.flatMap_cons, List.cons_append] at h
    cases h with
    | keep _ h =>
      obtain ⟨us, vs, rfl, hus, hvs⟩ := h.exists_append_rows
      obtain ⟨y, hy, rfl⟩ := hx _ us hus
      obtain ⟨ys, hlength, hys, rfl⟩ := ih hxs hvs
      exact ⟨y :: ys, congrArg Nat.succ hlength, List.forall_mem_cons.mpr ⟨hy, hys⟩, rfl⟩

/-- **Rows with commas between them** are rewritten row by row, and there is a comma beside each but a
single one. -/
theorem Rewrites.exists_rows {P : β → Prop}
    (hrows : ∀ x ∈ xs, ∀ p q us, xs.length ≤ 1 ∨ p = comma ∨ q = comma →
      Rewrites plain alone n body p q (f x) us → ∃ y, P y ∧ us = g y)
    (h : Rewrites plain alone n body p q (separated (xs.map f)) zs) :
    ∃ ys : List β, ys.length = xs.length ∧ (∀ y ∈ ys, P y) ∧ zs = separated (ys.map g) := by
  cases xs with
  | nil =>
    cases h
    exact ⟨[], rfl, by simp, rfl⟩
  | cons x xs =>
    obtain ⟨hx, hxs⟩ := List.forall_mem_cons.mp hrows
    rw [List.map_cons, separated] at h
    obtain ⟨us, vs, rfl, hus, hvs⟩ := h.exists_append_rows
    have hbeside : (x :: xs).length ≤ 1 ∨ p = comma ∨
        ((xs.map f).flatMap (comma :: ·)).head?.getD q = comma := by
      cases xs with
      | nil => exact .inl (Nat.le_refl 1)
      | cons => exact .inr (.inr rfl)
    obtain ⟨y, hy, rfl⟩ := hx _ _ us hbeside hus
    obtain ⟨ys, hlength, hys, rfl⟩ :=
      hvs.exists_moreRows fun x hx q us => hxs x hx comma q us (.inr (.inl rfl))
    exact ⟨y :: ys, congrArg Nat.succ hlength, List.forall_mem_cons.mpr ⟨hy, hys⟩, rfl⟩

end Rows

end Token

/-! ## What becomes of values -/

namespace Json

open Token

variable {plain : String → Prop} {alone : Prop} {n : String} {group : List (String × Json)}
  {p q : Token} {us : List Token}

/-- A value that begins with a string is one. -/
theorem eq_str_of_tokens {v : Json} {s : String} {ts : List Token} (h : v.tokens = .str s :: ts) :
    v = str s ∧ ts = [] := by
  cases v with
  | str s' =>
    obtain ⟨hs, rfl⟩ := List.cons.inj h
    exact ⟨congrArg str (Token.str.inj hs), rfl⟩
  | _ => exact absurd h (tokens_ne_str rfl s ts)

/-- **What takes the place of a member** is a group of members, and none only for a group without. -/
theorem exists_group_of_takes {key : String} {row : List Token}
    (h : Takes (memberTokens group) key row) :
    ∃ others, row = memberTokens others ∧ (others = [] → group = []) := by
  cases h with
  | reference => exact ⟨group, rfl, id⟩
  | stray hbody =>
    cases group with
    | nil => cases hbody
    | cons m rest =>
      obtain ⟨-, rfl⟩ := List.cons.inj hbody
      exact ⟨(_, m.2) :: rest, rfl, nofun⟩

/-- **What becomes of a member** is a group of members, and none only where it stands alone. -/
theorem exists_group_of_rewrites {m : String × Json} (halone : group = [] → alone)
    (hvalue : ∀ p q us, Rewrites plain alone n (memberTokens group) p q m.2.tokens us →
      ∃ w : Json, us = w.tokens)
    (h : Rewrites plain alone n (memberTokens group) p q (field m) us) :
    ∃ others, us = memberTokens others ∧ (others = [] → p = .openBrace ∧ q = .closeBrace) := by
  obtain ⟨key, v⟩ := m
  rw [field] at h
  generalize hts : v.tokens = ts at h
  cases h with
  | keep _ h =>
    cases h with
    | keep _ h =>
      obtain ⟨w, rfl⟩ := hvalue _ _ _ (hts ▸ h)
      refine ⟨[(key, w)], by simp [memberTokens, moreMembers], fun hnone => ?_⟩
      exact absurd hnone (List.cons_ne_nil _ _)
  | swap htakes _ hbraces h =>
    obtain ⟨rfl, rfl⟩ := eq_str_of_tokens hts
    cases h
    obtain ⟨others, rfl, hnil⟩ := exists_group_of_takes htakes
    refine ⟨others, List.append_nil _, fun hothers => ?_⟩
    exact hbraces (halone (hnil hothers)) (by rw [hothers]; rfl)

/-- **What becomes of the members of an object** is a row of groups, and there is none without members
beside another. -/
theorem exists_groups_of_rewrites {members : List (String × Json)} (halone : group = [] → alone)
    (hvalues : ∀ m ∈ members, ∀ p q us,
      Rewrites plain alone n (memberTokens group) p q m.2.tokens us → ∃ w : Json, us = w.tokens)
    (h : Rewrites plain alone n (memberTokens group) p q (separated (members.map field)) us) :
    ∃ groups, Tidy groups ∧ us = separated (groups.map memberTokens) := by
  have hrows (m : String × Json) (hm : m ∈ members) (p q : Token) (us : List Token)
      (hbeside : members.length ≤ 1 ∨ p = .comma ∨ q = .comma)
      (hrewrites : Rewrites plain alone n (memberTokens group) p q (field m) us) :
      ∃ others, (members.length ≤ 1 ∨ others ≠ []) ∧ us = memberTokens others := by
    obtain ⟨others, rfl, hnil⟩ := exists_group_of_rewrites halone (hvalues m hm) hrewrites
    refine ⟨others, hbeside.imp_right fun hcomma hothers => ?_, rfl⟩
    obtain ⟨rfl, rfl⟩ := hnil hothers
    rcases hcomma with hcomma | hcomma <;> cases hcomma
  obtain ⟨groups, hlength, hgroups, rfl⟩ := h.exists_rows hrows
  refine ⟨groups, ?_, rfl⟩
  by_cases hsingle : members.length ≤ 1
  · exact .inl (hlength ▸ hsingle)
  · exact .inr fun others hothers => (hgroups others hothers).resolve_left hsingle

/-- **What becomes of a value is a value.** -/
theorem exists_of_rewrites {v : Json} (halone : group = [] → alone)
    (h : Rewrites plain alone n (memberTokens group) p q v.tokens us) :
    ∃ w : Json, us = w.tokens := by
  induction v using Json.induct generalizing p q us with
  | null => exact ⟨null, h.eq_of_singleton⟩
  | bool b => exact ⟨bool b, h.eq_of_singleton⟩
  | num n => exact ⟨num n, h.eq_of_singleton⟩
  | str s => exact ⟨str s, h.eq_of_singleton⟩
  | arr items ih =>
    rw [tokens, itemTokens_eq] at h
    cases h with
    | keep _ h =>
      obtain ⟨us, vs, rfl, hus, hvs⟩ := h.exists_append (by simp)
      obtain rfl := hvs.eq_of_singleton
      obtain ⟨others, -, -, rfl⟩ := hus.exists_rows (P := fun _ => True) (g := tokens)
        fun v hv p q us _ hrewrites => (ih v hv hrewrites).imp fun _ hw => ⟨trivial, hw⟩
      exact ⟨arr others, by rw [tokens, itemTokens_eq]⟩
  | obj members ih =>
    rw [tokens, memberTokens_eq members] at h
    cases h with
    | keep _ h =>
      obtain ⟨us, vs, rfl, hus, hvs⟩ := h.exists_append (by simp)
      obtain rfl := hvs.eq_of_singleton
      obtain ⟨groups, htidy, rfl⟩ :=
        exists_groups_of_rewrites halone (fun m hm p q us => ih m hm) hus
      exact ⟨obj groups.flatten, by rw [tokens, separated_memberTokens htidy]⟩

end Json

/-! ## Passes over a text -/

namespace Fragments

open Token Json

variable {name : String} {members : List (String × Json)} {cs : List Char}
  {fragments : List (String × List (String × Json))}

/-- **A text is well formed**: it writes a value, however deep. -/
def WellFormed (cs : List Char) : Prop := ∃ w : Json, Token.ofText? cs = some w.tokens

/-- **A pass keeps a text well formed**, if the name is whole and a fragment without members is referred
to between braces only. -/
theorem WellFormed.replace (h : WellFormed cs) (hwhole : isWhole name = true)
    (hreadable : All IsReadable (obj members))
    (halone : members = [] → standsAlone name.toList none cs = true) :
    WellFormed (Fragments.replace name.toList (memberText members) cs) := by
  obtain ⟨w, hw⟩ := h
  have hrep : Replaceable (fun _ => False) name (memberTokens members) :=
    replaceable_memberTokens (fun _ => False.elim) hwhole hreadable
  have hchain : w.tokens.IsChain (Adjacent fun s => True ∨ IsDistinguished s) :=
    w.isChain_adjacent.imp fun _ _ hadjacent => ⟨hadjacent.behind, fun _ _ _ => .inl trivial⟩
  have hnil (hnone : memberTokens members = []) : members = [] := by
    cases members with
    | nil => rfl
    | cons => cases hnone
  obtain ⟨us, hspells, hrewrites⟩ := rewrites_replace hrep hchain
    (fun _ hnone => halone (hnil hnone)) (spells_of_ofText? hw)
  obtain ⟨u, rfl⟩ := exists_of_rewrites (fun _ => trivial) (hrewrites .comma .comma)
  exact ⟨u, hspells.ofText?⟩

/-- **Fragments without members are referred to between braces only**, each in the text that the
fragments before it leave. -/
def emptyStandAlone : List (String × List (String × Json)) → List Char → Bool
  | [], _ => true
  | (name, members) :: rest, cs =>
    (!members.isEmpty || standsAlone name.toList none cs) &&
      emptyStandAlone rest (replace name.toList (memberText members) cs)

/-- Beside another member its comma would be left. -/
example : replace ['e'] [] "\x7b\"$ref\":\"e\",\"var\":\"x\"\x7d".toList =
    "\x7b,\"var\":\"x\"\x7d".toList := by
  decide

/-- … as they are where every fragment has members. -/
theorem emptyStandAlone_of_ne_nil (h : ∀ f ∈ fragments, f.2 ≠ []) :
    emptyStandAlone fragments cs = true := by
  induction fragments generalizing cs with
  | nil => rfl
  | cons f rest ih =>
    obtain ⟨hf, hrest⟩ := List.forall_mem_cons.mp h
    simp [emptyStandAlone, hf, ih hrest]

/-- **The fragments applied in turn** leave a well-formed text. -/
theorem WellFormed.substitute (h : WellFormed cs) (hwhole : ∀ f ∈ fragments, isWhole f.1 = true)
    (hreadable : ∀ f ∈ fragments, All IsReadable (obj f.2))
    (halone : emptyStandAlone fragments cs = true) :
    ∃ cs', WellFormed cs' ∧ ∀ refusal?, Compile refusal? fragments →
      Fragments.substitute refusal? (objects fragments) cs = .ok cs' := by
  induction fragments generalizing cs with
  | nil => exact ⟨cs, h, fun _ _ => rfl⟩
  | cons f rest ih =>
    obtain ⟨name, members⟩ := f
    obtain ⟨hname, hwhole⟩ := List.forall_mem_cons.mp hwhole
    obtain ⟨hbody, hreadable⟩ := List.forall_mem_cons.mp hreadable
    rw [emptyStandAlone, Bool.and_eq_true, Bool.or_eq_true] at halone
    have hreplaced : WellFormed (Fragments.replace name.toList (memberText members) cs) := by
      refine h.replace hname hbody fun hnil => halone.1.resolve_left ?_
      obtain rfl : members = [] := hnil
      decide
    obtain ⟨cs', hwell, hrest⟩ := ih hreplaced hwhole hreadable halone.2
    refine ⟨cs', hwell, fun refusal? hcompile => ?_⟩
    obtain ⟨hfirst, hcompile⟩ := compile_cons.mp hcompile
    exact (substitute_cons hfirst _ _ _).trans (hrest refusal? hcompile)

end Fragments

/-! ## What a document is refused for -/

namespace Document

open Fragments Json

variable {fragments : List (String × List (String × Json))} {text : String} {document : Json}

/-- Checking a shape finds violations, not bad text. -/
theorem checkShape_ne_notJson (check : ShapeCheck) : checkShape check document ≠ .error .notJson := by
  rw [checkShape.eq_def]
  split
  · split <;> simp
  · simp

/-- A value is not refused for being no JSON. -/
theorem decode_ne_notJson : decode document ≠ .error .notJson := by
  have hflag (entry : String × Json) : decodeFlag entry ≠ .error .notJson := by
    rw [decodeFlag]
    split <;> simp
  rw [decode.eq_def]
  split
  · exact bind_ne_error (mapM_ne_error hflag _) fun _ => nofun
  · simp

/-- **Inlining keeps a document well formed**: with its fragments applied, a text that can be read is
left as the text of a value.  Unless the value is nested too deep it can be read, and so the text is
never refused for being no JSON.  The fragments are applied if a pattern compiles for each name; and if
none does for one, the text is refused for that. -/
theorem wellFormed_inlined (hread : read? text = some document)
    (hdeclared : declared document = objects fragments)
    (hwhole : ∀ f ∈ fragments, isWhole f.1 = true)
    (halone : emptyStandAlone fragments text.toList = true) :
    ∃ cs, ∃ w : Json, (∀ refusal?, Compile refusal? fragments →
        Fragments.substitute refusal? (objects fragments) text.toList = .ok cs) ∧
      Token.ofText? cs = some w.tokens ∧
      (w.depth ≤ Builder.deepest → read? (String.ofList cs) = some w.settled ∧
        ∀ parser, parse parser text ≠ .error .notJson) := by
  obtain ⟨v, hv, rfl⟩ := read?_eq_some_iff.mp hread
  have hreadable : All IsReadable v :=
    (forall_readable_iff v).mp (spells_of_ofText? hv.tokens).readable
  have hbodies := all_objects (hreadable.settled fun _ hv => hv.settled) hdeclared
  obtain ⟨cs, ⟨w, hw⟩, hcs⟩ := WellFormed.substitute ⟨v, hv.tokens⟩ hwhole hbodies halone
  refine ⟨cs, w, hcs, hw, fun hdepth => ⟨?_, fun parser => ?_⟩⟩
  · exact read?_eq_some_iff.mpr ⟨w, ⟨by rwa [String.toList_ofList], hdepth⟩, rfl⟩
  have hdocument := readText_of_isWrittenIn hv
  have hshape := @checkShape_ne_notJson v.settled parser.check
  by_cases hobject : v.settled.isObject = true
  · obtain ⟨members, hmembers⟩ := exists_of_isObject hobject
    rw [hmembers] at hdocument hshape hdeclared
    rw [parse_of_object parser hdocument]
    refine bind_ne_error hshape fun _ => bind_ne_error ?_ fun _ => decode_ne_notJson
    by_cases hnone : declared (obj members) = []
    · simp [resolve_of_declared_nil hnone]
    cases hrefused : refused? parser.refusal? (objects fragments) with
    | none =>
      have happlied := hcs parser.refusal? (compile_of_refused? hrefused)
      rw [resolve_of_substitute hnone (hdeclared ▸ happlied), readText_of_tokens hw, if_pos hdepth]
      exact nofun
    | some bad =>
      rw [resolve_of_refused (hdeclared ▸ substitute_of_refused hrefused)]
      exact nofun
  · rw [parse_of_not_object parser hdocument hobject]
    exact bind_ne_error hshape fun _ => by simp

/-- Two fragments, one of them without members. -/
def sharedRules : List (String × List (String × Json)) := [("e", []), ("v", [("var", .str "b")])]

/-- A document that shares them in its rule. -/
def sharingValue (rule : Json) : Json :=
  .obj [("flags", .obj [("on", .obj [("state", .str "ENABLED"), ("targeting", rule)])]),
    ("$evaluators", .obj (objects sharedRules))]

/-- References that stand alone, beside another member, and at the end of a key. -/
def referringText : String :=
  "\x7b\"flags\":\x7b\"on\":\x7b\"state\":\"ENABLED\",\"targeting\":" ++
    "\x7b\"if\":[\x7b\"$ref\" : \"e\" \x7d,\x7b\"$ref\":\"v\",\"a\\\"$ref\":\"v\"\x7d]\x7d" ++
    "\x7d\x7d,\"$evaluators\":\x7b\"e\":\x7b\x7d,\"v\":\x7b\"var\":\"b\"\x7d\x7d\x7d"

def referringRule : Json :=
  .obj [("if", .arr [.obj [("$ref", .str "e")], .obj [("$ref", .str "v"), ("a\"$ref", .str "v")]])]

/-- What is left of the rule. -/
def inlinedRule : Json :=
  .obj [("if", .arr [.obj [], .obj [("var", .str "b"), ("a\"var", .str "b")]])]

theorem wellFormed_inlined_referring :
    ∃ cs, Fragments.substitute tooBig? (objects sharedRules) referringText.toList = .ok cs ∧
      read? (String.ofList cs) = some (sharingValue inlinedRule).settled ∧
      parse (.standard .strict) referringText ≠ .error .notJson := by
  have hwritten : IsWrittenIn referringText (sharingValue referringRule) :=
    ⟨by decide +kernel, by decide⟩
  have hread := read?_eq_some_iff.mpr ⟨_, hwritten, rfl⟩
  have hdeclared : declared (sharingValue referringRule).settled = objects sharedRules := rfl
  obtain ⟨cs, w, hcs, hw, hfits⟩ :=
    wellFormed_inlined hread hdeclared (by decide +kernel) (by decide +kernel)
  have hcs := hcs tooBig? (compile_of_refused? (by decide +kernel))
  have hinlined : (Fragments.substitute tooBig? (objects sharedRules) referringText.toList).toOption.bind
      Token.ofText? = some (sharingValue inlinedRule).tokens := by decide +kernel
  rw [hcs] at hinlined
  obtain rfl : w = sharingValue inlinedRule :=
    tokens_injective (Option.some.inj (hw.symm.trans hinlined))
  obtain ⟨hinlinedRead, hparse⟩ := hfits (by decide)
  exact ⟨cs, hcs, hinlinedRead, hparse (.standard .strict)⟩

end Document

end FeatureFlags
