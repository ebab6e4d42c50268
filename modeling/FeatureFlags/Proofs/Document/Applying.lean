import FeatureFlags.Proofs.Document.Splicing

/-!
# Proofs/Document/Applying — the fragments of a document applied to its text

A text that spells a value, and the words of references in it without escapes, is turned by
`Fragments.substitute` into one that spells the tokens of the value with its references replaced
(`Fragments.spells_substitute`).  The text that is printed for a value is such a text
(`Json.spells_chars`).
-/

namespace FeatureFlags

/-! ## Printed values -/

namespace Json

open Token

theorem isChain_tokens {keys : String → Prop} {v : Json} (h : All (HasKeys keys) v) :
    v.tokens.IsChain (Adjacent keys) := by
  have hchain := @isChain_substituted (fun _ => none) keys (by simp) v h
  rwa [substituted_none] at hchain

/-- Behind what a value writes stands a mark, whatever its keys. -/
theorem isChain_adjacent (v : Json) : v.tokens.IsChain (Adjacent fun _ => True) := by
  refine isChain_tokens (all_of_forall (fun v => ?_) v)
  cases v with
  | obj members => exact fun _ _ => trivial
  | _ => trivial

theorem isChain_apart (v : Json) : v.tokens.IsChain Apart :=
  v.isChain_adjacent.imp fun _ _ => Adjacent.apart

/-- **A printed value spells its tokens**, and every plain string as it stands. -/
theorem spells_chars {v : Json} (h : All IsReadable v) : Spells IsPlain v.chars v.tokens :=
  spells_texts v.isChain_apart ((forall_readable_iff v).mpr h)

/-- **A printed value is read as itself**, sorted, unless it is nested too deep. -/
theorem read?_print {v : Json} (h : All IsReadable v) :
    read? v.print = if v.depth ≤ Builder.deepest then some v.settled else none := by
  rw [read?, print, String.toList_ofList, (spells_chars h).ofText?, Option.bind_some,
    ofTokens?_tokens]

end Json

/-! ## Bodies -/

namespace Fragments

open Token

variable {fragments : List (String × List (String × Json))} {keys : String → Prop}
  {refusal? : String → Option String}

/-- **Fragments that are objects**, among those that a document declares. -/
def objects (fragments : List (String × List (String × Json))) : List (String × Json) :=
  fragments.map fun f => (f.1, .obj f.2)

theorem exists_objects {found : List (String × Json)} (h : ∀ f ∈ found, f.2.isObject = true) :
    ∃ fragments, found = objects fragments := by
  induction found with
  | nil => exact ⟨[], rfl⟩
  | cons f rest ih =>
    obtain ⟨name, v⟩ := f
    obtain ⟨hf, hrest⟩ := List.forall_mem_cons.mp h
    obtain ⟨fragments, rfl⟩ := ih hrest
    cases v with
    | obj members => exact ⟨(name, members) :: fragments, rfl⟩
    | _ => cases hf

/-- **Patterns compile** for the references to each fragment. -/
def Compile (refusal? : String → Option String) (fragments : List (String × List (String × Json))) :
    Prop :=
  ∀ f ∈ fragments, refusal? f.1 = none

theorem compile_cons {f : String × List (String × Json)} :
    Compile refusal? (f :: fragments) ↔ refusal? f.1 = none ∧ Compile refusal? fragments :=
  List.forall_mem_cons

/-- **The first fragment that is refused** for its name. -/
def refused? (refusal? : String → Option String) (declared : List (String × Json)) : Option Bad :=
  declared.findSome? fun f => (refusal? f.1).map (Bad.mk f.1)

theorem refused?_eq_none_iff {declared : List (String × Json)} :
    refused? refusal? declared = none ↔ ∀ f ∈ declared, refusal? f.1 = none := by
  simp [refused?, List.findSome?_eq_none_iff]

theorem compile_of_refused? (h : refused? refusal? (objects fragments) = none) :
    Compile refusal? fragments := fun f hf =>
  refused?_eq_none_iff.mp h (f.1, .obj f.2) (List.mem_map_of_mem hf)

/-- A fragment is applied if a pattern compiles for it. -/
theorem substitute_cons {name : String} (h : refusal? name = none) (members : List (String × Json))
    (rest : List (String × Json)) (cs : List Char) :
    substitute refusal? ((name, .obj members) :: rest) cs =
      substitute refusal? rest (replace name.toList (Json.memberText members) cs) := by
  rw [substitute, h]

theorem substitute_of_refused {bad : Bad} (h : refused? refusal? (objects fragments) = some bad)
    (cs : List Char) : substitute refusal? (objects fragments) cs = .error bad := by
  induction fragments generalizing cs with
  | nil => cases h
  | cons f rest ih =>
    obtain ⟨name, members⟩ := f
    rw [objects, List.map_cons, refused?, List.findSome?_cons] at h
    cases hname : refusal? name with
    | some message =>
      rw [hname] at h
      obtain rfl := Option.some.inj h
      change substitute refusal? ((name, .obj members) :: objects rest) cs = _
      rw [substitute, hname]
    | none =>
      rw [hname] at h
      exact (substitute_cons hname members _ cs).trans (ih h _)

/-- Declared fragments are all objects whose patterns compile, or one is refused whatever the text. -/
theorem objects_or_refused (refusal? : String → Option String) (declared : List (String × Json)) :
    (∃ fragments, declared = objects fragments ∧ Compile refusal? fragments) ∨
      ∃ bad, ∀ cs, substitute refusal? declared cs = .error bad := by
  induction declared with
  | nil => exact .inl ⟨[], rfl, nofun⟩
  | cons f rest ih =>
    obtain ⟨name, v⟩ := f
    cases v with
    | obj members =>
      cases hname : refusal? name with
      | some message =>
        refine .inr ⟨⟨name, message⟩, fun cs => ?_⟩
        rw [substitute, hname]
      | none =>
        rcases ih with ⟨fragments, rfl, hcompile⟩ | ⟨bad, h⟩
        · exact .inl ⟨(name, members) :: fragments, rfl, compile_cons.mpr ⟨hname, hcompile⟩⟩
        · exact .inr ⟨bad, fun cs => (substitute_cons hname members rest cs).trans (h _)⟩
    | _ => exact .inr ⟨⟨name, "fragment must be an object"⟩, fun cs => rfl⟩

/-- Neighbours stay as they should be in what a name stands for. -/
theorem isChain_resolution (h : ∀ f ∈ fragments, Json.All (Json.HasKeys keys) (.obj f.2)) :
    ∀ n ts, resolution fragments n = some ts → ts.IsChain (Adjacent keys) := by
  induction fragments with
  | nil =>
    intro n ts hts
    cases hts
  | cons f rest ih =>
    obtain ⟨hf, hrest⟩ := List.forall_mem_cons.mp h
    intro n ts hts
    rw [resolution_cons] at hts
    split at hts
    · obtain rfl := Option.some.inj hts
      have hchain := Json.isChain_substituted (ih hrest) hf
      rw [Json.tokens, substituted_braces] at hchain
      exact hchain.tail.left_of_append
    · exact ih hrest n ts hts

/-! ## Passes over a text -/

/-- **A word of a reference**: the key, or a name. -/
def IsWord (names : List String) (s : String) : Prop := s = refKey ∨ s ∈ names

/-- **What passes over a text rely on**: names are plain, no key ends in what looks like the key of a
reference, and numbers can be written. -/
structure Applicable (fragments : List (String × List (String × Json))) (w : Json) : Prop where
  names : ∀ f ∈ fragments, IsPlain f.1
  keys : Json.All (Json.HasKeys IsDistinguished) w
  bodyKeys : ∀ f ∈ fragments, Json.All (Json.HasKeys IsDistinguished) (.obj f.2)
  readable : ∀ f ∈ fragments, Json.All Json.IsReadable (.obj f.2)

theorem Applicable.isPlain {w : Json} (h : Applicable fragments w) {s : String}
    (hs : IsWord (fragments.map (·.1)) s) : IsPlain s := by
  rcases hs with rfl | hs
  · decide
  · obtain ⟨f, hf, rfl⟩ := List.mem_map.mp hs
    exact h.names f hf

/-- **The members of an object can take the place of a reference.** -/
theorem replaceable_memberTokens {plain : String → Prop} {n : String}
    {members : List (String × Json)} (hplain : ∀ s, plain s → IsPlain s)
    (hwhole : isWhole n = true) (h : Json.All Json.IsReadable (.obj members)) :
    Replaceable plain n (Json.memberTokens members) where
  isPlain := hplain
  whole := hwhole
  begins t ht := by
    cases members with
    | nil => cases ht
    | cons m rest => exact ⟨m.1, (Option.some.inj ht).symm⟩
  chain := by
    have hchain := Json.isChain_apart (.obj members)
    rw [Json.tokens] at hchain
    exact hchain.tail.left_of_append
  readable t ht := (Json.forall_readable_iff (.obj members)).mpr h t
    (List.mem_cons_of_mem _ (List.mem_append_left _ ht))

theorem Applicable.replaceable {w : Json} (h : Applicable fragments w)
    {f : String × List (String × Json)} (hf : f ∈ fragments) :
    Replaceable (IsWord (fragments.map (·.1))) f.1 (Json.memberTokens f.2) :=
  replaceable_memberTokens (fun _ => h.isPlain) (isWhole_of_isPlain (h.names f hf)) (h.readable f hf)

/-- **The fragments applied to a text.** -/
theorem spells_substitute {w : Json} {cs : List Char} (h : Applicable fragments w)
    (hcompile : Compile refusal? fragments)
    (hspells : Spells (IsWord (fragments.map (·.1))) cs w.tokens) :
    ∃ cs', substitute refusal? (objects fragments) cs = .ok cs' ∧
      Spells (IsWord (fragments.map (·.1))) cs' (substituted (resolution fragments) w.tokens) := by
  -- each pass finds the text as the passes before it have left it
  have hpasses (before after : List (String × List (String × Json))) :
      before ++ after = fragments → ∀ cs, Spells (IsWord (fragments.map (·.1))) cs (passes before w.tokens) →
        ∃ cs', substitute refusal? (objects after) cs = .ok cs' ∧
          Spells (IsWord (fragments.map (·.1))) cs' (passes (before ++ after) w.tokens) := by
    induction after generalizing before with
    | nil =>
      intro _ cs hcs
      exact ⟨cs, rfl, by rwa [List.append_nil]⟩
    | cons f rest ih =>
      intro heq cs hcs
      have hbefore : ∀ g ∈ before, g ∈ fragments := fun g hg =>
        heq ▸ List.mem_append_left _ hg
      have hchain := Json.isChain_substituted
        (isChain_resolution fun g hg => h.bodyKeys g (hbefore g hg)) h.keys
      rw [← passes_tokens] at hchain
      have hf : f ∈ fragments := heq ▸ List.mem_append_right _ List.mem_cons_self
      have hreplaced := spells_replace (h.replaceable hf) (.inl rfl)
        (.inr (List.mem_map_of_mem hf)) hchain hcs
      obtain ⟨cs', hcs', hspells'⟩ := ih (before ++ [f]) (by rw [← heq]; simp) _
        (by rw [passes_append]; exact hreplaced)
      exact ⟨cs', (substitute_cons (hcompile f hf) _ _ _).trans hcs', by
        rwa [← List.append_cons] at hspells'⟩
  rw [← passes_tokens]
  exact hpasses [] fragments rfl cs hspells

end Fragments

end FeatureFlags
