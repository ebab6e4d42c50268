import FeatureFlags.Proofs.Document.Reading
import FeatureFlags.Proofs.Provider.Answer

/-!
# Proofs/Provider/Metadata — where the annotations of an answer come from

Every answer from a table, good or bad, is annotated alike: with the annotations of the flag, if it is
there and enabled, over those of the table (`Answering.metadata_resolve`).  Those of the table are the
scalars under `metadata` in the document (`Document.exists_of_parse`), over what was delivered
beside it.  `Answering.get?_metadata_resolve` reads each name through the three layers.
-/

namespace FeatureFlags

open Json

/-! ## The annotations of a document -/

namespace Document

variable {parser : Parser} {text name : String} {document : Json} {parsed : FlagSet}

/-- A scalar of a document, by its name under `metadata`. -/
def annotation? (document : Json) (name : String) : Option Scalar :=
  ((document.member? "metadata").bind (·.member? name)).bind Scalar.ofJson?

theorem get?_ofMembers {members : List (String × Json)} (h : Ascending members) (name : String) :
    (Metadata.ofMembers members).get? name = (valueAt? name members).bind Scalar.ofJson? := by
  rw [Metadata.ofMembers, KeyMap.get?_filterMap, KeyMap.get?_ofList, h.valueAt?_reverse]

theorem get?_decodeMetadata (hascending : All (OnMembers Ascending) document) (name : String) :
    (decodeMetadata (document.member? "metadata")).get? name = annotation? document name := by
  rw [annotation?]
  cases hfound : document.member? "metadata" with
  | none => rfl
  | some v =>
    cases v with
    | obj found =>
      obtain ⟨members, rfl, hvalue⟩ := exists_of_member? hfound
      have hpart := (all_obj.mp hascending).2 _ (mem_of_valueAt? hvalue)
      exact get?_ofMembers (onMembers_obj.mp hpart.self) name
    | _ => rfl

theorem metadata_of_decode (h : decode document = .ok parsed) :
    parsed.metadata = decodeMetadata (document.member? "metadata") := by
  rw [decode] at h
  split at h
  · obtain ⟨flags, -, hparsed⟩ := bind_eq_ok_iff.mp h
    obtain rfl := Except.ok.inj hparsed
    rfl
  · cases h

/-- **The table of a text is annotated with the scalars of its document.** -/
theorem exists_of_parse (h : parse parser text = .ok parsed) :
    ∃ document, readResolved parser text = .ok document ∧
      ∀ name, parsed.metadata.get? name = annotation? document name := by
  rw [parse_eq_readResolved] at h
  obtain ⟨document, hdocument, hdecode⟩ := bind_eq_ok_iff.mp h
  obtain ⟨cs, hcs⟩ := exists_readText hdocument
  refine ⟨document, hdocument, fun name => ?_⟩
  rw [metadata_of_decode hdecode, get?_decodeMetadata (ascending_of_readText hcs)]

end Document

/-! ## The annotations of an answer -/

/-- The flag under a key, if it is there and enabled. -/
def FlagSet.enabled? (table : FlagSet) (key : String) : Option Flag :=
  (table.get? key).filter Flag.isEnabled

namespace Answering

variable {a : Answering} {table : FlagSet} {key : String} {flag : Flag} {context : Context}
  {choice : Choice} {r : Refusal}

/-- **The annotations of a flag over those of its table**; without a flag, those of the table. -/
def annotations (table : FlagSet) (key : String) : Metadata :=
  (table.enabled? key).elim table.metadata (metadataOf table)

theorem get?_annotations (table : FlagSet) (key name : String) :
    (annotations table key).get? name =
      ((table.enabled? key).bind (·.metadata.get? name)).or (table.metadata.get? name) := by
  rw [annotations]
  cases table.enabled? key with
  | none => rfl
  | some flag => exact KeyMap.get?_overlay table.metadata flag.metadata name

theorem annotations_of_findFlag (h : findFlag table key = .ok flag) :
    annotations table key = metadataOf table flag := by
  obtain ⟨hflag, henabled⟩ := findFlag_eq_ok_iff.mp h
  rw [annotations, FlagSet.enabled?, hflag, Option.filter_some_pos henabled]
  rfl

/-- A flag that is not found is annotated as its table is. -/
theorem metadata_of_findFlag (h : findFlag table key = .error r) :
    r.metadata = annotations table key := by
  rw [findFlag] at h
  rw [annotations, FlagSet.enabled?]
  split at h
  · next hnone =>
    obtain rfl := Except.error.inj h
    rw [hnone]
    rfl
  · next flag hflag =>
    split at h
    · cases h
    · next hdisabled =>
      obtain rfl := Except.error.inj h
      rw [hflag, Option.filter_some_neg (Bool.eq_false_of_not_eq_true hdisabled)]
      rfl

theorem metadata_missingVariant (key : String) (flag : Flag) (name : String) (metadata : Metadata) :
    (missingVariant key flag name metadata).metadata = metadata := by
  rw [missingVariant]
  split <;> rfl

/-- **Every refusal of a table is annotated alike** … -/
theorem metadata_of_choose_error (h : a.choose table key context = .error (.refused r)) :
    r.metadata = annotations table key := by
  obtain ⟨r', hfind, heq⟩ | ⟨flag, hfind, hname | ⟨name, heq⟩⟩ := choose_error_cases h
  · obtain rfl := Stop.refused.inj heq
    exact metadata_of_findFlag hfind
  · obtain ⟨_, _, -, -, heq⟩ | ⟨r', heq, -, hmetadata⟩ := nameVariant_error_cases hname
    · cases heq
    · obtain rfl := Stop.refused.inj heq
      rw [annotations_of_findFlag hfind, hmetadata]
  · obtain rfl := Stop.refused.inj heq
    rw [annotations_of_findFlag hfind, metadata_missingVariant]

/-- … **and so is every choice.** -/
theorem metadata_of_chooses (h : a.Chooses table key context choice) :
    choice.metadata = annotations table key := by
  obtain ⟨hflag, henabled, -, -⟩ := h
  exact (annotations_of_findFlag (findFlag_eq_ok_iff.mpr ⟨hflag, henabled⟩)).symm

theorem metadata_answerOf (key : String) (type : FlagType) (default : FlagValue) (choice : Choice) :
    (answerOf key type default choice).metadata = choice.metadata := by
  rw [answerOf_eq]
  split <;> rfl

/-- **Every answer from a table is annotated alike**, be it a value or a failure. -/
theorem metadata_resolve {store : Store} (htable : store.table? = some table) {type : FlagType}
    {default : FlagValue} {answer : Resolution FlagValue}
    (hanswer : a.resolve store key type default context = .ok answer) :
    answer.metadata = annotations table key := by
  have hfrom : a.chooseFrom store.table? key context = a.choose table key context := by
    rw [htable]
    rfl
  cases hchoose : a.choose table key context with
  | error stop =>
    cases stop with
    | refused r =>
      rw [resolve_of_refusal (hfrom.trans hchoose)] at hanswer
      obtain rfl := Except.ok.inj hanswer
      exact metadata_of_choose_error hchoose
    | overflow cause =>
      rw [resolve_of_overflow (hfrom.trans hchoose)] at hanswer
      cases hanswer
  | ok choice =>
    rw [resolve_of_choice (hfrom.trans hchoose)] at hanswer
    obtain rfl := Except.ok.inj hanswer
    rw [metadata_answerOf]
    exact metadata_of_chooses (chooses_iff.mpr hchoose)

/-- **The three layers of annotations.**  Once a text is delivered that gives a table, and until another
one does, an answer has under a name what the flag has, if it is there and enabled; else the scalar that
the document has; else what was delivered beside it. -/
theorem get?_metadata_resolve (a : Answering) {parser : Parser} {text : String} {parsed : FlagSet}
    (hparse : Document.parse parser text = .ok parsed) (delivered : Metadata)
    (before : List Outlet.Turn) {after : List Outlet.Turn}
    (hafter : ∀ payload ∈ Outlet.deliveries after, payload.table? parser = none) (key : String)
    (type : FlagType) (default : FlagValue) (context : Context) :
    ∃ document, Document.readResolved parser text = .ok document ∧ ∀ answer,
      a.resolve (Outlet.run parser (before ++ .delivery (.data text delivered) :: after)).store key type
          default context = .ok answer → ∀ name, answer.metadata.get? name =
        ((parsed.enabled? key).bind (·.metadata.get? name)).or
          ((Document.annotation? document name).or (delivered.get? name)) := by
  obtain ⟨document, hdocument, hmetadata⟩ := Document.exists_of_parse hparse
  refine ⟨document, hdocument, fun answer hanswer name => ?_⟩
  have htable : (Outlet.run parser (before ++ .delivery (.data text delivered) :: after)).store.table? =
      some (parsed.withDeliveryMetadata delivered) := by
    rw [Outlet.table?_run]
    exact Outlet.lastTable?_of_none_later (Payload.table?_of_parse hparse) before hafter
  rw [metadata_resolve htable hanswer, get?_annotations, ← hmetadata]
  exact congrArg _ (KeyMap.get?_overlay delivered parsed.metadata name)

/-- A document that is annotated through a fragment, and by a list. -/
def layeredText : String :=
  "\x7b\"flags\":\x7b\"on\":\x7b\"state\":\"ENABLED\",\"metadata\":\x7b\"a\":1\x7d\x7d\x7d," ++
  "\"metadata\":\x7b\"$ref\":\"shared\",\"c\":[]\x7d," ++
  "\"$evaluators\":\x7b\"shared\":\x7b\"a\":2,\"b\":2\x7d\x7d\x7d"

def layeredDelivery : Metadata :=
  KeyMap.ofList [("a", .integer 3), ("b", .integer 3), ("c", .integer 3)]

/-- The flag has no variants, so that the answer is a failure. -/
theorem get?_metadata_resolve_layered :
    ∃ answer, (⟨.standard, none, 0⟩ : Answering).resolve
        (Outlet.run (.standard .none) ([] ++ .delivery (.data layeredText layeredDelivery) ::
          [.delivery (.fault "away")])).store "on" .boolean (.boolean true) ∅ = .ok answer ∧
      ["a", "b", "c", "d"].map answer.metadata.get? =
        [some (.integer 1), some (.integer 2), some (.integer 3), none] := by
  have hafter : ∀ payload ∈ Outlet.deliveries [.delivery (.fault "away")],
      payload.table? (.standard .none) = none := by
    intro payload h
    obtain rfl := List.mem_singleton.mp h
    rfl
  have hflag : (Document.parse (.standard .none) layeredText).toOption.map (fun parsed =>
      ["a", "b", "c", "d"].map fun name => (parsed.enabled? "on").bind (·.metadata.get? name)) =
      some [some (.integer 1), none, none, none] := by decide +kernel
  have hscalars : (Document.readResolved (.standard .none) layeredText).toOption.map (fun document =>
      ["a", "b", "c", "d"].map (Document.annotation? document)) =
      some [some (.integer 2), some (.integer 2), none, none] := by decide +kernel
  have hanswered : ((⟨.standard, none, 0⟩ : Answering).resolve
      (Outlet.run (.standard .none) ([] ++ .delivery (.data layeredText layeredDelivery) ::
        [.delivery (.fault "away")])).store "on" .boolean (.boolean true) ∅).toOption.isSome = true := by
    decide +kernel
  obtain ⟨answer, hanswer⟩ := Option.isSome_iff_exists.mp hanswered
  obtain ⟨parsed, hparsed, hflag⟩ := Option.map_eq_some_iff.mp hflag
  obtain ⟨document, hdocument, hlayers⟩ := get?_metadata_resolve ⟨.standard, none, 0⟩
    (eq_ok_of_toOption hparsed) layeredDelivery [] hafter "on" .boolean (.boolean true) ∅
  refine ⟨answer, eq_ok_of_toOption hanswer, ?_⟩
  rw [hdocument] at hscalars
  simp only [Except.toOption, Option.map_some, Option.some.injEq, List.map_cons, List.map_nil,
    List.cons.injEq, and_true] at hflag hscalars ⊢
  simp only [hlayers answer (eq_ok_of_toOption hanswer), hflag, hscalars]
  decide

end Answering

end FeatureFlags
