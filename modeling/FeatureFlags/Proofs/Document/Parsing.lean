import FeatureFlags.Document.Parsing
import FeatureFlags.Proofs.Document.Applying
import FeatureFlags.Proofs.Document.Inlining

/-!
# Proofs/Document/Parsing — the table of a text is the table of its document

References are resolved in the text, so what `Document.parse` gives depends on the spelling.  Where
references are spelled plainly and stand alone, it depends on the document only, with each reference
replaced (`Document.parse_eq`): two plain texts of one document give one table
(`Document.parse_respelled`).
-/

namespace FeatureFlags

open Token

/-! ## What a text writes -/

namespace Json

/-- **A text writes a value**, with the members as they stand in it. -/
structure IsWrittenIn (text : String) (w : Json) : Prop where
  tokens : Token.ofText? text.toList = some w.tokens
  depth : w.depth ≤ Builder.deepest

variable {text : String} {v w : Json}

/-- What is read is what is written, sorted. -/
theorem read?_eq_some_iff : read? text = some v ↔ ∃ w, IsWrittenIn text w ∧ w.settled = v := by
  rw [read?, Option.bind_eq_some_iff]
  constructor
  · rintro ⟨ts, hts, hv⟩
    obtain ⟨w, rfl, hdepth, hw⟩ := ofTokens?_eq_some_iff.mp hv
    exact ⟨w, ⟨hts, hdepth⟩, hw⟩
  · rintro ⟨w, ⟨htokens, hdepth⟩, hw⟩
    exact ⟨w.tokens, htokens, ofTokens?_eq_some_iff.mpr ⟨w, rfl, hdepth, hw⟩⟩

theorem exists_of_member? {key : String} (h : v.member? key = some w) :
    ∃ members, v = obj members ∧ valueAt? key members = some w := by
  cases v with
  | obj members => exact ⟨members, rfl, h⟩
  | _ => cases h

end Json

namespace Document

open Fragments Json

variable {text : String} {w : Json} {fragments : List (String × List (String × Json))}
  {refusal? : String → Option String}

theorem readText_of_tokens {cs : List Char} (h : Token.ofText? cs = some w.tokens) :
    readText cs = if w.depth ≤ Builder.deepest then .ok w.settled else .error .notJson := by
  rw [readText, h, Option.bind_some, ofTokens?_tokens]
  split <;> simp_all

theorem readText_of_isWrittenIn (h : IsWrittenIn text w) : readText text.toList = .ok w.settled := by
  rw [readText_of_tokens h.tokens, if_pos h.depth]

/-- The text of an object has the table of the object, once its references are resolved. -/
theorem parse_of_object (parser : Parser) {members : List (String × Json)}
    (h : readText text.toList = .ok (obj members)) :
    parse parser text = checkShape parser.check (obj members) >>= fun _ =>
      resolve parser.refusal? text.toList (obj members) members >>= decode := by
  rw [parse, h]
  rfl

/-- … and that of anything else has none. -/
theorem parse_of_not_object (parser : Parser) {v : Json} (h : readText text.toList = .ok v)
    (hv : ¬ v.isObject = true) :
    parse parser text = checkShape parser.check v >>= fun _ => .error .noFlags := by
  rw [parse, h]
  cases v with
  | obj members => exact absurd rfl hv
  | _ => rfl

/-! ## Declared fragments -/

/-- **The fragments that a document declares.** -/
def declared (document : Json) : List (String × Json) :=
  match document.member? "$evaluators" with
  | some (.obj found) => found
  | _ => []

theorem declared_of_member? {document : Json} {found : List (String × Json)}
    (h : document.member? "$evaluators" = some (.obj found)) : declared document = found := by
  rw [declared, h]

theorem exists_of_declared_ne_nil {document : Json} (h : declared document ≠ []) :
    ∃ found, document.member? "$evaluators" = some (obj found) := by
  rw [declared] at h
  split at h
  · exact ⟨_, ‹_›⟩
  · exact absurd rfl h

/-- A property of everything in a document holds in what it declares. -/
theorem all_declared {p : Json → Prop} {document : Json} (h : All p document)
    (hsome : declared document ≠ []) : All p (obj (declared document)) := by
  obtain ⟨found, hfound⟩ := exists_of_declared_ne_nil hsome
  obtain ⟨members, rfl, hvalue⟩ := exists_of_member? hfound
  rw [declared_of_member? hfound]
  exact (all_obj.mp h).2 _ (mem_of_valueAt? hvalue)

/-- Without fragments the document stays as it is. -/
theorem resolve_of_declared_nil {text : List Char} {members : List (String × Json)}
    (h : declared (obj members) = []) :
    resolve refusal? text (obj members) members = .ok (obj members) := by
  have hmember : (obj members).member? "$evaluators" = valueAt? "$evaluators" members := rfl
  rw [declared, hmember] at h
  rw [resolve]
  split
  · rename_i hfound
    rw [hfound] at h
    cases h
  · rfl

/-- With fragments the text is read that they leave, unless one is refused. -/
theorem resolve_of_declared_ne_nil {text : List Char} {members : List (String × Json)}
    (h : declared (obj members) ≠ []) :
    resolve refusal? text (obj members) members =
      match Fragments.substitute refusal? (declared (obj members)) text with
      | .ok substituted => readText substituted
      | .error bad => .error (.badFragment bad) := by
  have hmember : (obj members).member? "$evaluators" = valueAt? "$evaluators" members := rfl
  rw [declared, hmember] at h ⊢
  rw [resolve]
  cases hfound : valueAt? "$evaluators" members with
  | none => simp [hfound] at h
  | some v =>
    cases v with
    | obj found =>
      cases found with
      | nil => simp [hfound] at h
      | cons f rest => rfl
    | _ => simp [hfound] at h

theorem resolve_of_substitute {text cs : List Char} {members : List (String × Json)}
    (hsome : declared (obj members) ≠ [])
    (h : Fragments.substitute refusal? (declared (obj members)) text = .ok cs) :
    resolve refusal? text (obj members) members = readText cs := by
  rw [resolve_of_declared_ne_nil hsome, h]

theorem resolve_of_refused {text : List Char} {members : List (String × Json)} {bad : Fragments.Bad}
    (h : ∀ cs, Fragments.substitute refusal? (declared (obj members)) cs = .error bad) :
    resolve refusal? text (obj members) members = .error (.badFragment bad) := by
  have hsome : declared (obj members) ≠ [] := by
    intro hnone
    have := h []
    rw [hnone] at this
    cases this
  rw [resolve_of_declared_ne_nil hsome, h]

/-! ## Plain references -/

/-- **References are spelled plainly**: the text writes the key of a reference and the names of
fragments without escapes, the names need none, and no key ends in what looks like the key of a
reference. -/
structure SpelledPlainly (text : String) (w : Json) : Prop where
  spells : Spells (IsWord ((declared w.settled).map (·.1))) text.toList w.tokens
  names : ∀ f ∈ declared w.settled, IsPlain f.1
  keys : All (HasKeys IsDistinguished) w

/-- **References stand alone**: no key stands twice, and a reference to a fragment has no member beside
it. -/
structure ReferencesAlone (w : Json) : Prop where
  distinct : All HasDistinctKeys w
  lone : All (HasLoneReferences (· ∈ (declared w.settled).map (·.1))) w

theorem referencesAlone_of_key (hdistinct : All HasDistinctKeys w) (h : All HasLoneReferenceKey w) :
    ReferencesAlone w :=
  ⟨hdistinct, h.imp fun _ hv => hv.hasLoneReferences⟩

theorem names_objects : (objects fragments).map (·.1) = fragments.map (·.1) := by
  rw [objects, List.map_map]
  rfl

/-- A property of everything in a document holds in the bodies of its fragments. -/
theorem all_objects {p : Json → Prop} {document : Json} (h : All p document)
    (hdeclared : declared document = objects fragments) : ∀ f ∈ fragments, All p (obj f.2) := by
  intro f hf
  have hmem : (f.1, obj f.2) ∈ declared document := hdeclared ▸ List.mem_map_of_mem hf
  exact (all_obj.mp (all_declared h (List.ne_nil_of_mem hmem))).2 _ hmem

theorem SpelledPlainly.applicable (h : SpelledPlainly text w)
    (hdeclared : declared w.settled = objects fragments) : Applicable fragments w where
  names f hf := h.names (f.1, obj f.2) (hdeclared ▸ List.mem_map_of_mem hf)
  keys := h.keys
  bodyKeys := all_objects (h.keys.settled fun _ hv => hv.settled) hdeclared
  readable := by
    have hreadable := (forall_readable_iff w).mp h.spells.readable
    exact all_objects (hreadable.settled fun _ hv => hv.settled) hdeclared

/-- **The text with its references resolved** writes the tokens of the value with its references
replaced. -/
theorem SpelledPlainly.substitute (h : SpelledPlainly text w)
    (hdeclared : declared w.settled = objects fragments) (hcompile : Compile refusal? fragments) :
    ∃ cs, substitute refusal? (objects fragments) text.toList = .ok cs ∧
      Token.ofText? cs = some (substituted (resolution fragments) w.tokens) := by
  have hspells := h.spells
  rw [hdeclared, names_objects] at hspells
  obtain ⟨cs, hcs, hspelled⟩ := spells_substitute (h.applicable hdeclared) hcompile hspells
  exact ⟨cs, hcs, hspelled.ofText?⟩

/-- Names with members are names of fragments. -/
theorem names_resolved (fragments : List (String × List (String × Json))) :
    ∀ n group, resolved fragments n = some group → n ∈ fragments.map (·.1) :=
  fun _ _ => mem_of_resolved

theorem settled_resolved_declared (halone : ReferencesAlone w)
    (hdeclared : declared w.settled = objects fragments) :
    ∀ n group, resolved fragments n = some group → (obj group).settled = obj group := by
  have hlone := all_objects (halone.lone.settled fun _ hv => hv.settled) hdeclared
  have hfixed : All (fun v => v.settled = v) w.settled :=
    (all_of_forall (p := fun _ => True) (fun _ => trivial) w).settled fun v _ => v.settled_settled
  rw [hdeclared, names_objects] at hlone
  exact settled_resolved (fun f hf => List.mem_map_of_mem hf) hlone fun f hf =>
    (all_objects hfixed hdeclared f hf).self

/-- No key stands twice where references have been replaced. -/
theorem hasDistinctKeys_resolved (halone : ReferencesAlone w)
    (hdeclared : declared w.settled = objects fragments) :
    All HasDistinctKeys (w.spliced (resolved fragments)) := by
  have hlone := halone.lone
  rw [hdeclared, names_objects] at hlone
  refine All.spliced (fun v => HasDistinctKeys.spliced) (names_resolved fragments) ?_ hlone
    halone.distinct
  intro n group hn
  rw [← settled_resolved_declared halone hdeclared n group hn]
  exact all_hasDistinctKeys_settled _

/-- **The document with its references resolved** is the document with its references replaced, if it
is not nested too deep. -/
theorem resolve_eq {members : List (String × Json)} (hread : w.settled = obj members)
    (hwritten : IsWrittenIn text w) (hplain : SpelledPlainly text w) (halone : ReferencesAlone w)
    (hdeclared : declared w.settled = objects fragments) (hcompile : Compile refusal? fragments) :
    resolve refusal? text.toList (obj members) members =
      if ((obj members).spliced (resolved fragments)).depth ≤ Builder.deepest then
        .ok ((obj members).spliced (resolved fragments))
      else .error .notJson := by
  have hlone := halone.lone
  have hbodies := all_objects (hlone.settled fun _ hv => hv.settled) hdeclared
  rw [hdeclared, names_objects] at hlone hbodies
  have hsettled := settled_resolved_declared halone hdeclared
  have hspliced := settled_spliced (names_resolved fragments) hsettled hlone
  have hdepth := depth_settled (hasDistinctKeys_resolved halone hdeclared)
  rw [hread] at hspliced
  rw [hspliced] at hdepth
  cases fragments with
  | nil =>
    have hsame : (obj members).spliced (resolved []) = obj members := spliced_none _
    have hfits : (obj members).depth ≤ Builder.deepest := by
      rw [← hread, depth_settled halone.distinct]
      exact hwritten.depth
    rw [hsame, if_pos hfits]
    exact resolve_of_declared_nil (hread ▸ hdeclared)
  | cons f rest =>
    obtain ⟨cs, hcs, htokens⟩ := hplain.substitute hdeclared hcompile
    rw [substituted_tokens (resolution_eq (fun g hg => List.mem_map_of_mem hg) hbodies)
      (hlone.imp fun _ hv => hv.isTidy (names_resolved _))] at htokens
    have hreadText := readText_of_tokens htokens
    rw [hspliced, ← hdepth] at hreadText
    rw [← hreadText]
    rw [← hdeclared, hread] at hcs
    exact resolve_of_substitute (by rw [← hread, hdeclared]; simp [objects]) hcs

theorem isDistinguished_of_isPlain {key : String} (h : IsPlain key) : IsDistinguished key := by
  rintro ⟨before, hkey⟩
  rw [IsPlain, ← hkey, List.any_append, Bool.or_eq_false_iff] at h
  exact absurd h.2 (by decide)

/-- **Without backslashes** references are spelled plainly. -/
theorem spelledPlainly_of_no_backslash (hw : IsWrittenIn text w) (hslash : '\\' ∉ text.toList) :
    SpelledPlainly text w := by
  obtain ⟨hspells, hplain⟩ := spells_of_no_backslash hslash hw.tokens
  have hkeys : All (HasKeys IsPlain) w := all_hasKeys_of_tokens hplain
  refine ⟨hspells.mono fun _ _ => trivial, fun f hf => ?_, hkeys.imp fun _ => OnMembers.imp
    fun members hmembers m hm => isDistinguished_of_isPlain (hmembers m hm)⟩
  have hdeclared := all_declared (hkeys.settled fun _ hv => hv.settled) (List.ne_nil_of_mem hf)
  exact onMembers_obj.mp hdeclared.self f hf

/-- **The table of a plain text** is that of its document with each reference replaced. -/
theorem parse_eq (hwritten : IsWrittenIn text w) (hplain : SpelledPlainly text w)
    (halone : ReferencesAlone w) (hdeclared : declared w.settled = objects fragments)
    (hcompile : Compile refusal? fragments) (hobject : w.settled.isObject = true) :
    parse ⟨.none, refusal?⟩ text =
      if (w.settled.spliced (resolved fragments)).depth ≤ Builder.deepest then
        decode (w.settled.spliced (resolved fragments))
      else .error .notJson := by
  obtain ⟨members, hread⟩ := exists_of_isObject hobject
  have hresolve := resolve_eq hread hwritten hplain halone hdeclared hcompile
  rw [parse, readText_of_isWrittenIn hwritten, hread]
  change (resolve refusal? text.toList (obj members) members >>= decode) = _
  rw [hresolve]
  split <;> rfl

/-- **A fragment that is refused** leaves a text without a table. -/
theorem parse_of_refused {bad : Bad} (hwritten : IsWrittenIn text w)
    (hobject : w.settled.isObject = true) (hdeclared : declared w.settled = objects fragments)
    (hrefused : refused? refusal? (objects fragments) = some bad) :
    parse ⟨.none, refusal?⟩ text = .error (.badFragment bad) := by
  obtain ⟨members, hread⟩ := exists_of_isObject hobject
  rw [hread] at hdeclared
  rw [parse_of_object _ (hread ▸ readText_of_isWrittenIn hwritten),
    resolve_of_refused (hdeclared ▸ substitute_of_refused hrefused)]
  rfl

/-! ## Two spellings of one document -/

/-- The table of a text is that of its document, with its references resolved. -/
theorem parse_congr (parser : Parser) {first second : String}
    (hread : readText first.toList = readText second.toList)
    (hresolve : ∀ members, readText first.toList = .ok (obj members) →
      resolve parser.refusal? first.toList (obj members) members =
        resolve parser.refusal? second.toList (obj members) members) :
    parse parser first = parse parser second := by
  rw [parse, parse, ← hread]
  cases hdocument : readText first.toList with
  | error => rfl
  | ok document =>
    refine congrArg (checkShape parser.check document >>= ·) (funext fun _ => ?_)
    cases document with
    | obj members => exact congrArg (· >>= decode) (hresolve members hdocument)
    | _ => rfl

theorem readText_eq_of_read? {first second : String} (h : read? first = read? second) :
    readText first.toList = readText second.toList := by
  rw [readText, readText]
  rw [read?, read?] at h
  rw [h]

/-- **Two plain spellings of one value** resolve alike, whether its references stand alone or not. -/
theorem resolve_respelled {first second : String} {members : List (String × Json)}
    (hread : w.settled = obj members) (hfirst : SpelledPlainly first w)
    (hsecond : SpelledPlainly second w) :
    resolve refusal? first.toList (obj members) members =
      resolve refusal? second.toList (obj members) members := by
  by_cases hnone : declared (obj members) = []
  · rw [resolve_of_declared_nil hnone, resolve_of_declared_nil hnone]
  rcases objects_or_refused refusal? (declared (obj members)) with
    ⟨fragments, hdeclared, hcompile⟩ | ⟨bad, hrefused⟩
  · obtain ⟨cs, hcs, htokens⟩ := hfirst.substitute (hread ▸ hdeclared) hcompile
    obtain ⟨ds, hds, htokens'⟩ := hsecond.substitute (hread ▸ hdeclared) hcompile
    rw [← hdeclared] at hcs hds
    rw [resolve_of_substitute hnone hcs, resolve_of_substitute hnone hds, readText, readText, htokens,
      htokens']
  · rw [resolve_of_refused hrefused, resolve_of_refused hrefused]

/-- **Spelling does not matter**: two texts of one document give one table, or fail alike, when it has
no fragments or both spell its references plainly; and members may stand in another order where
references stand alone. -/
theorem parse_respelled (parser : Parser) {first second : String} {w u : Json}
    (hw : IsWrittenIn first w) (hu : IsWrittenIn second u) (hsame : read? first = read? second)
    (h : declared w.settled = [] ∨ SpelledPlainly first w ∧ SpelledPlainly second u ∧
      (w = u ∨ ReferencesAlone w ∧ ReferencesAlone u)) :
    parse parser first = parse parser second := by
  have hread := readText_eq_of_read? hsame
  have hdocument : w.settled = u.settled := by
    rw [readText_of_isWrittenIn hw, readText_of_isWrittenIn hu] at hread
    exact Except.ok.inj hread
  refine parse_congr parser hread fun members hmembers => ?_
  have hw' : w.settled = obj members := by
    rw [readText_of_isWrittenIn hw] at hmembers
    exact Except.ok.inj hmembers
  have hu' : u.settled = obj members := hdocument.symm.trans hw'
  rcases h with hnone | ⟨hfirst, hsecond, rfl | ⟨halone, halone'⟩⟩
  · rw [hw'] at hnone
    rw [resolve_of_declared_nil hnone, resolve_of_declared_nil hnone]
  · exact resolve_respelled hw' hfirst hsecond
  · rcases objects_or_refused parser.refusal? (declared (obj members)) with
      ⟨fragments, hobjects, hcompile⟩ | ⟨bad, hrefused⟩
    · rw [resolve_eq hw' hw hfirst halone (hw' ▸ hobjects) hcompile,
        resolve_eq hu' hu hsecond halone' (hu' ▸ hobjects) hcompile]
    · rw [resolve_of_refused hrefused, resolve_of_refused hrefused]

/-- A document with one reference, spelled plainly. -/
def plainText : String :=
  "\x7b\"flags\":\x7b\"on\":\x7b\"state\":\"ENABLED\",\"targeting\":\x7b\"$ref\":\"a\"\x7d\x7d\x7d," ++
    "\"$evaluators\":\x7b\"a\":\x7b\"var\":\"b\"\x7d\x7d\x7d"

/-- What it writes. -/
def plainValue : Json :=
  .obj [
    ("flags", .obj [("on", .obj [("state", .str "ENABLED"),
      ("targeting", .obj [("$ref", .str "a")])])]),
    ("$evaluators", .obj [("a", .obj [("var", .str "b")])])]

/-- The same document in another order, with blanks. -/
def reorderedText : String :=
  "\x7b \"$evaluators\": \x7b\"a\": \x7b\"var\":\"b\"\x7d\x7d,\n\"flags\": \x7b\"on\": " ++
    "\x7b\"targeting\":\x7b\"$ref\"\t: \"a\"\x7d, \"state\": \"ENABLED\"\x7d\x7d\x7d"

def reorderedValue : Json :=
  .obj [("$evaluators", .obj [("a", .obj [("var", .str "b")])]),
    ("flags", .obj [("on", .obj [("targeting", .obj [("$ref", .str "a")]),
      ("state", .str "ENABLED")])])]

/-- The same document with an escape in the key of the reference. -/
def escapedText : String :=
  "\x7b\"flags\":\x7b\"on\":\x7b\"state\":\"ENABLED\",\"targeting\":\x7b\"\\u0024ref\":\"a\"\x7d\x7d\x7d," ++
    "\"$evaluators\":\x7b\"a\":\x7b\"var\":\"b\"\x7d\x7d\x7d"

theorem parse_respelled_reordered :
    parse (.standard .strict) plainText = parse (.standard .strict) reorderedText := by
  have hplain : IsWrittenIn plainText plainValue := ⟨by decide +kernel, by decide⟩
  have hreordered : IsWrittenIn reorderedText reorderedValue := ⟨by decide +kernel, by decide⟩
  have hsame : read? plainText = read? reorderedText :=
    (read?_eq_some_iff.mpr ⟨_, hplain, rfl⟩).trans (read?_eq_some_iff.mpr ⟨_, hreordered, rfl⟩).symm
  have hspelled := spelledPlainly_of_no_backslash hplain (by decide +kernel)
  have hspelled' := spelledPlainly_of_no_backslash hreordered (by decide +kernel)
  exact parse_respelled (.standard .strict) hplain hreordered hsame (.inr ⟨hspelled, hspelled', .inr
    ⟨referencesAlone_of_key (by decide) (by decide), referencesAlone_of_key (by decide) (by decide)⟩⟩)

/-- **An escape in a reference matters**: it is not resolved. -/
theorem parse_escaped_ne :
    read? plainText = read? escapedText ∧
      parse (.standard .none) plainText ≠ parse (.standard .none) escapedText := by
  have hplain : read? plainText = some plainValue.settled :=
    read?_eq_some_iff.mpr ⟨plainValue, ⟨by decide +kernel, by decide⟩, rfl⟩
  have hescaped : read? escapedText = some plainValue.settled :=
    read?_eq_some_iff.mpr ⟨plainValue, ⟨by decide +kernel, by decide⟩, rfl⟩
  refine ⟨hplain.trans hescaped.symm, fun h => ?_⟩
  have hrule := congrArg (fun result : Except DocumentError FlagSet =>
    result.toOption.bind fun s => (s.get? "on").bind fun f => f.rule.map Json.print) h
  revert hrule
  decide +kernel

end Document

end FeatureFlags
