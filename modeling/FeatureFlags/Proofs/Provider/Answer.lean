import FeatureFlags.Proofs.Collections.Results
import FeatureFlags.Proofs.Store.Run
import FeatureFlags.Provider.Answer

/-!
# Proofs/Provider/Answer — every answer is justified by the table in force

`Answering.Chooses` says which choice a table justifies: a variant of an enabled flag, named by its rule
or by its default.  The choice that is made is the one that is justified (`chooses_iff`), and it does not
depend on the type asked for (`resolve_uniform`).  A request is left without an answer exactly if its rule
breaks off (`choose_overflow_iff`).  `resolve_justified` puts it together for a store after any row of
deliveries.
-/

namespace FeatureFlags

/-! ## What the result of a rule means -/

/-- **A value names a variant**: a text that is not empty, a truth value or a number. -/
inductive Json.Names : Json → String → Prop
  | text {s : String} (h : s ≠ "") : Names (.str s) s
  | boolean (b : Bool) : Names (.bool b) (Json.bool b).nameText
  | number (n : Number) : Names (.num n) n.nameText

/-- **A result that names nothing**: null or the empty text. -/
def IsBlank (result : Option Json) : Prop :=
  result = none ∨ result = some .null ∨ result = some (.str "")

namespace Outcome

variable {result : Option Json} {name : String}

theorem ofResult_eq_default_iff : ofResult result = .default ↔ IsBlank result := by
  rcases result with - | - | b | n | s | items | members <;> simp [ofResult, IsBlank]

theorem ofResult_eq_variant_iff :
    ofResult result = .variant name ↔ ∃ v, result = some v ∧ v.Names name := by
  constructor
  · intro h
    rcases result with - | - | b | n | s | items | members
    case some.bool =>
      obtain rfl := Outcome.variant.inj h
      exact ⟨_, rfl, .boolean b⟩
    case some.num =>
      obtain rfl := Outcome.variant.inj h
      exact ⟨_, rfl, .number n⟩
    case some.str =>
      rw [ofResult] at h
      split at h
      · cases h
      · next hs =>
        obtain rfl := Outcome.variant.inj h
        exact ⟨_, rfl, .text (by simpa using hs)⟩
    all_goals cases h
  · rintro ⟨v, rfl, hv⟩
    cases hv with
    | text hs => simp [ofResult, hs]
    | boolean b => rfl
    | number n => rfl

end Outcome

namespace Answering

variable {a : Answering} {table : FlagSet} {key : String} {flag : Flag} {context : Context}
  {name : String} {reason : Reason} {choice : Choice} {r : Refusal}

/-! ## The choice -/

/-- What the rule of a flag gives on the context that it sees. -/
def resultOf (a : Answering) (table : FlagSet) (key : String) (rule : Json) (context : Context) :
    Except RuleError (Option Json) :=
  Targeting.evaluate a.operations key a.time rule (a.contextOf table context).toObject

/-- **A flag justifies a name and a reason.** -/
inductive Names (a : Answering) (table : FlagSet) (key : String) (flag : Flag) (context : Context) :
    String → Reason → Prop
  /-- A flag without a rule has its default. -/
  | static (hrule : flag.rule = none) : Names a table key flag context flag.defaultVariant .static
  /-- … and so has one whose rule names nothing. -/
  | default {rule : Json} {result : Option Json} (hrule : flag.rule = some rule)
      (hresult : a.resultOf table key rule context = .ok result) (hblank : IsBlank result) :
      Names a table key flag context flag.defaultVariant .default
  /-- The rule names a variant. -/
  | targetingMatch {rule v : Json} {name : String} (hrule : flag.rule = some rule)
      (hresult : a.resultOf table key rule context = .ok (some v)) (hname : v.Names name) :
      Names a table key flag context name .targetingMatch

/-- **The name is the one that is justified.** -/
theorem names_iff :
    a.Names table key flag context name reason ↔
      a.nameVariant table key flag context = .ok (name, reason) := by
  rw [nameVariant]
  constructor
  · rintro (hrule | ⟨hrule, hresult, hblank⟩ | ⟨hrule, hresult, hname⟩)
    · rw [hrule]
    · rw [resultOf] at hresult
      simp only [hrule, hresult, Outcome.ofResult_eq_default_iff.mpr hblank]
    · rw [resultOf] at hresult
      simp only [hrule, hresult, Outcome.ofResult_eq_variant_iff.mpr ⟨_, rfl, hname⟩]
  · intro h
    split at h
    · next hrule =>
      obtain ⟨rfl, rfl⟩ := Prod.mk.inj (Except.ok.inj h)
      exact .static hrule
    · next rule hrule =>
      simp only at h
      split at h
      · cases h
      · next result hresult =>
        split at h
        · next hout =>
          obtain ⟨rfl, rfl⟩ := Prod.mk.inj (Except.ok.inj h)
          obtain ⟨v, rfl, hv⟩ := Outcome.ofResult_eq_variant_iff.mp hout
          exact .targetingMatch hrule hresult hv
        · next hout =>
          obtain ⟨rfl, rfl⟩ := Prod.mk.inj (Except.ok.inj h)
          exact .default hrule hresult (Outcome.ofResult_eq_default_iff.mp hout)
        · cases h

/-- **A table justifies a choice**: the variant is one of an enabled flag under the key. -/
inductive Chooses (a : Answering) (table : FlagSet) (key : String) (context : Context) : Choice → Prop
  | mk {flag : Flag} {name : String} {reason : Reason} {value : Json}
      (hflag : table.get? key = some flag) (henabled : flag.isEnabled = true)
      (hnames : a.Names table key flag context name reason) (hvalue : flag.variant? name = some value) :
      Chooses a table key context ⟨name, value, reason, metadataOf table flag⟩

theorem findFlag_eq_ok_iff :
    findFlag table key = .ok flag ↔ table.get? key = some flag ∧ flag.isEnabled = true := by
  rw [findFlag]
  cases table.get? key with
  | none => simp
  | some found =>
    by_cases henabled : found.isEnabled = true
    · simp only [henabled, if_true, Except.ok.injEq, Option.some.injEq]
      constructor
      · rintro rfl
        exact ⟨rfl, henabled⟩
      · exact And.left
    · simp only [henabled, Option.some.injEq]
      refine iff_of_false (fun h => nomatch h) ?_
      rintro ⟨rfl, h⟩
      exact henabled h

/-- What is chosen once a flag is found. -/
theorem choose_of_findFlag (h : findFlag table key = .ok flag) :
    a.choose table key context = a.nameVariant table key flag context >>= fun (name, reason) =>
      match flag.variant? name with
      | some value => .ok ⟨name, value, reason, metadataOf table flag⟩
      | none => .error (.refused (missingVariant key flag name (metadataOf table flag))) := by
  rw [choose, h]
  rfl

theorem choose_of_not_found (h : findFlag table key = .error r) :
    a.choose table key context = .error (.refused r) := by
  rw [choose, h]
  rfl

/-- **The choice is the one that is justified.** -/
theorem chooses_iff :
    a.Chooses table key context choice ↔ a.choose table key context = .ok choice := by
  constructor
  · rintro ⟨hflag, henabled, hnames, hvalue⟩
    rw [choose_of_findFlag (findFlag_eq_ok_iff.mpr ⟨hflag, henabled⟩), names_iff.mp hnames]
    simp only [bind, Except.bind, hvalue]
  · intro h
    cases hfind : findFlag table key with
    | error r =>
      rw [choose_of_not_found hfind] at h
      cases h
    | ok flag =>
      obtain ⟨hflag, henabled⟩ := findFlag_eq_ok_iff.mp hfind
      rw [choose_of_findFlag hfind] at h
      obtain ⟨⟨name, reason⟩, hnames, h⟩ := bind_eq_ok_iff.mp h
      dsimp only at h
      split at h
      · next value hvalue =>
        obtain rfl := Except.ok.inj h
        exact .mk hflag henabled (names_iff.mpr hnames) hvalue
      · cases h

/-! ### What stops a choice -/

theorem code_of_findFlag (h : findFlag table key = .error r) : r.code = .flagNotFound := by
  rw [findFlag] at h
  split at h
  · obtain rfl := Except.error.inj h
    rfl
  · split at h
    · cases h
    · obtain rfl := Except.error.inj h
      rfl

/-- A rule without a result is refused as unreadable, unless it breaks off. -/
theorem stopOf_cases (metadata : Metadata) (e : RuleError) :
    (∃ cause, e = .overflow cause ∧ stopOf metadata e = .overflow cause) ∨
      (∀ cause, e ≠ .overflow cause) ∧
        stopOf metadata e = .refused ⟨.unreadable, e.message, metadata⟩ := by
  cases e with
  | overflow cause => exact .inl ⟨cause, rfl, rfl⟩
  | _ => exact .inr ⟨nofun, rfl⟩

/-- **A rule breaks off**: that of the enabled flag under the key, at a sum that does not fit. -/
def BreaksOff (a : Answering) (table : FlagSet) (key : String) (context : Context) (cause : Overflow) :
    Prop :=
  ∃ flag rule, table.get? key = some flag ∧ flag.isEnabled = true ∧ flag.rule = some rule ∧
    a.resultOf table key rule context = .error (.overflow cause)

/-- **What stops the naming of a variant**: a rule that breaks off, or a refusal with the annotations of
the flag over those of its table. -/
theorem nameVariant_error_cases {stop : Stop} (h : a.nameVariant table key flag context = .error stop) :
    (∃ rule cause, flag.rule = some rule ∧
        a.resultOf table key rule context = .error (.overflow cause) ∧ stop = .overflow cause) ∨
      ∃ r, stop = .refused r ∧ (r.code = .unreadable ∨ r.code = .general) ∧
        r.metadata = metadataOf table flag := by
  rw [nameVariant] at h
  split at h
  · cases h
  · next rule hrule =>
    simp only at h
    split at h
    · next e hresult =>
      obtain rfl := Except.error.inj h
      obtain ⟨cause, rfl, hstop⟩ | ⟨-, hstop⟩ := stopOf_cases (metadataOf table flag) e
      · exact .inl ⟨rule, cause, hrule, hresult, hstop⟩
      · exact .inr ⟨_, hstop, .inl rfl, rfl⟩
    · split at h
      · cases h
      · cases h
      · exact .inr ⟨_, (Except.error.inj h).symm, .inr rfl, rfl⟩

theorem code_missingVariant (key : String) (flag : Flag) (name : String) (metadata : Metadata) :
    (missingVariant key flag name metadata).code = .flagNotFound ∨
      (missingVariant key flag name metadata).code = .general := by
  rw [missingVariant]
  split
  · exact .inl rfl
  · exact .inr rfl

/-- **What stops a choice**: the key, or what stops the naming, or a name that no variant has. -/
theorem choose_error_cases {stop : Stop} (h : a.choose table key context = .error stop) :
    (∃ r, findFlag table key = .error r ∧ stop = .refused r) ∨
      ∃ flag, findFlag table key = .ok flag ∧
        (a.nameVariant table key flag context = .error stop ∨
          ∃ name, stop = .refused (missingVariant key flag name (metadataOf table flag))) := by
  cases hfind : findFlag table key with
  | error r =>
    rw [choose_of_not_found hfind] at h
    exact .inl ⟨r, rfl, (Except.error.inj h).symm⟩
  | ok flag =>
    refine .inr ⟨flag, rfl, ?_⟩
    rw [choose_of_findFlag hfind, bind_eq_error_iff] at h
    refine h.imp_right ?_
    rintro ⟨⟨name, reason⟩, -, h⟩
    dsimp only at h
    split at h
    · cases h
    · exact ⟨name, (Except.error.inj h).symm⟩

/-- **A table that refuses a choice** does so for no matter of readiness or of types. -/
theorem code_of_choose (h : a.choose table key context = .error (.refused r)) :
    r.code ≠ .notReady ∧ r.code ≠ .typeMismatch := by
  have hcode : r.code = .flagNotFound ∨ r.code = .unreadable ∨ r.code = .general := by
    obtain ⟨r', hfind, heq⟩ | ⟨flag, -, hname | ⟨name, heq⟩⟩ := choose_error_cases h
    · obtain rfl := Stop.refused.inj heq
      exact .inl (code_of_findFlag hfind)
    · obtain ⟨_, _, -, -, heq⟩ | ⟨r', heq, hcode, -⟩ := nameVariant_error_cases hname
      · cases heq
      · obtain rfl := Stop.refused.inj heq
        exact .inr hcode
    · obtain rfl := Stop.refused.inj heq
      exact (code_missingVariant key flag name _).imp_right .inr
  rcases hcode with h | h | h <;> simp [h]

/-- **A choice breaks off exactly if the rule does.** -/
theorem choose_overflow_iff {cause : Overflow} :
    a.choose table key context = .error (.overflow cause) ↔ a.BreaksOff table key context cause := by
  constructor
  · intro h
    obtain ⟨r, -, heq⟩ | ⟨flag, hfind, hname | ⟨name, heq⟩⟩ := choose_error_cases h
    · cases heq
    · obtain ⟨hflag, henabled⟩ := findFlag_eq_ok_iff.mp hfind
      obtain ⟨rule, cause', hrule, hresult, heq⟩ | ⟨r, heq, -⟩ := nameVariant_error_cases hname
      · obtain rfl := Stop.overflow.inj heq
        exact ⟨flag, rule, hflag, henabled, hrule, hresult⟩
      · cases heq
    · cases heq
  · rintro ⟨flag, rule, hflag, henabled, hrule, hresult⟩
    rw [resultOf] at hresult
    have hname : a.nameVariant table key flag context = .error (.overflow cause) := by
      simp only [nameVariant, hrule, hresult, stopOf]
    rw [choose_of_findFlag (findFlag_eq_ok_iff.mpr ⟨hflag, henabled⟩), hname]
    rfl

/-- A key that is absent or disabled is not found. -/
theorem choose_of_no_flag (h : ∀ flag, table.get? key = some flag → flag.isEnabled = false) :
    ∃ r, a.choose table key context = .error (.refused r) ∧ r.code = .flagNotFound := by
  cases hfind : findFlag table key with
  | error r => exact ⟨r, choose_of_not_found hfind, code_of_findFlag hfind⟩
  | ok flag =>
    obtain ⟨hflag, henabled⟩ := findFlag_eq_ok_iff.mp hfind
    rw [h flag hflag] at henabled
    cases henabled

/-! ## The answer -/

/-- **The second conversion never fails**: what a value was converted to is what it is taken as. -/
theorem as?_of_coerce {type : FlagType} {raw : Json} {value : FlagValue}
    (h : FlagValue.coerce type raw = some value) : value.as? type = some value := by
  have htype : value.type = type := by
    rcases type <;> rcases raw <;> simp [FlagValue.coerce] at h <;> subst h <;> rfl
  rw [FlagValue.as?, if_pos htype]

/-- So one conversion decides what a choice gives. -/
theorem answerOf_eq (key : String) (type : FlagType) (default : FlagValue) (choice : Choice) :
    answerOf key type default choice =
      match FlagValue.coerce type choice.value with
      | some value => .success key value choice.variant choice.reason choice.metadata
      | none => failure key default (otherType key type choice) := by
  rw [answerOf]
  cases hvalue : FlagValue.coerce type choice.value with
  | none => rfl
  | some value => simp only [as?_of_coerce hvalue]

section Resolve

variable {store : Store} {type : FlagType} {default : FlagValue}

theorem resolve_of_refusal (h : a.chooseFrom store.table? key context = .error (.refused r)) :
    a.resolve store key type default context = .ok (failure key default r) := by
  rw [resolve, h]

theorem resolve_of_overflow {cause : Overflow}
    (h : a.chooseFrom store.table? key context = .error (.overflow cause)) :
    a.resolve store key type default context = .error cause := by
  rw [resolve, h]

theorem resolve_of_choice (h : a.chooseFrom store.table? key context = .ok choice) :
    a.resolve store key type default context = .ok (answerOf key type default choice) := by
  rw [resolve, h]

end Resolve

/-- **A request is answered as the table justifies**: with the choice that it justifies, in the type asked
for, and with a failure only if there is none, or none of that type.  There is no answer exactly if the
rule breaks off. -/
inductive Justified (a : Answering) (table : Option FlagSet) (key : String) (context : Context)
    (type : FlagType) (default : FlagValue) : Except Overflow (Resolution FlagValue) → Prop
  | success {inForce : FlagSet} {choice : Choice} {value : FlagValue} (htable : table = some inForce)
      (hchoice : a.Chooses inForce key context choice)
      (hvalue : FlagValue.coerce type choice.value = some value) :
      Justified a table key context type default
        (.ok (.success key value choice.variant choice.reason choice.metadata))
  | failure {code : ErrorCode} {message : String} {metadata : Metadata}
      (hnone : ∀ inForce choice, table = some inForce → a.Chooses inForce key context choice →
        FlagValue.coerce type choice.value = none)
      (hready : code = .notReady ↔ table = none)
      (hfound : ∀ inForce, table = some inForce →
        (∀ flag, inForce.get? key = some flag → flag.isEnabled = false) → code = .flagNotFound)
      (hends : ∀ inForce cause, table = some inForce → ¬ a.BreaksOff inForce key context cause) :
      Justified a table key context type default (.ok (.failure key default code message metadata))
  | overflow {inForce : FlagSet} {cause : Overflow} (htable : table = some inForce)
      (hbreaks : a.BreaksOff inForce key context cause) :
      Justified a table key context type default (.error cause)

section Justified

variable {store : Store} {type : FlagType} {default : FlagValue}

theorem justified_of_no_table (h : store.table? = none) :
    a.Justified store.table? key context type default (a.resolve store key type default context) := by
  have hchoice : a.chooseFrom store.table? key context = .error (.refused notReady) := by rw [h]; rfl
  rw [resolve_of_refusal hchoice, h]
  exact .failure (fun _ _ h => nomatch h) (iff_of_true rfl rfl) (fun _ h => nomatch h)
    fun _ _ h => nomatch h

/-- A refusal of the table is justified: the table justifies no choice. -/
theorem justified_of_refusal (h : store.table? = some table)
    (hchoose : a.choose table key context = .error (.refused r)) :
    a.Justified store.table? key context type default (a.resolve store key type default context) := by
  have hchoice : a.chooseFrom store.table? key context = .error (.refused r) := by
    rw [h]
    exact hchoose
  rw [resolve_of_refusal hchoice, h]
  refine .failure ?_ (iff_of_false (code_of_choose hchoose).1 (Option.some_ne_none _)) ?_ ?_
  · rintro _ choice ⟨⟩ hchoice
    rw [chooses_iff.mp hchoice] at hchoose
    cases hchoose
  · rintro _ ⟨⟩ hflag
    obtain ⟨r', hr', hcode⟩ := @choose_of_no_flag a _ _ context hflag
    rw [hchoose] at hr'
    obtain rfl := Stop.refused.inj (Except.error.inj hr')
    exact hcode
  · rintro _ cause ⟨⟩ hbreaks
    rw [choose_overflow_iff.mpr hbreaks] at hchoose
    cases hchoose

/-- A choice of the table is justified, and so is a failure if it is of another type: there is no
other choice. -/
theorem justified_of_choice (h : store.table? = some table)
    (hchoose : a.choose table key context = .ok choice) :
    a.Justified store.table? key context type default (a.resolve store key type default context) := by
  have hchoice : a.chooseFrom store.table? key context = .ok choice := by rw [h]; exact hchoose
  rw [resolve_of_choice hchoice, answerOf_eq, h]
  cases hvalue : FlagValue.coerce type choice.value with
  | some value => exact .success rfl (chooses_iff.mpr hchoose) hvalue
  | none =>
    -- any other justified choice is this one, and a key without an enabled flag has none
    refine .failure ?_ (iff_of_false (fun h => nomatch h) (Option.some_ne_none _)) ?_ ?_
    · rintro _ other ⟨⟩ hother
      rw [chooses_iff, hchoose] at hother
      rwa [← Except.ok.inj hother]
    · rintro _ ⟨⟩ hflag
      obtain ⟨r, hr, -⟩ := @choose_of_no_flag a _ _ context hflag
      rw [hchoose] at hr
      cases hr
    · rintro _ cause ⟨⟩ hbreaks
      rw [choose_overflow_iff.mpr hbreaks] at hchoose
      cases hchoose

/-- Where the rule breaks off there is no answer. -/
theorem justified_of_overflow {cause : Overflow} (h : store.table? = some table)
    (hchoose : a.choose table key context = .error (.overflow cause)) :
    a.Justified store.table? key context type default (a.resolve store key type default context) := by
  have hchoice : a.chooseFrom store.table? key context = .error (.overflow cause) := by
    rw [h]
    exact hchoose
  rw [resolve_of_overflow hchoice, h]
  exact .overflow rfl (choose_overflow_iff.mp hchoose)

end Justified

/-- **Every request is answered as the table in force justifies.** -/
theorem justified_resolve (a : Answering) (store : Store) (key : String) (context : Context)
    (type : FlagType) (default : FlagValue) :
    a.Justified store.table? key context type default
      (a.resolve store key type default context) := by
  cases htable : store.table? with
  | none =>
    rw [← htable]
    exact justified_of_no_table htable
  | some table =>
    rw [← htable]
    cases hchoose : a.choose table key context with
    | error stop =>
      cases stop with
      | refused r => exact justified_of_refusal htable hchoose
      | overflow cause => exact justified_of_overflow htable hchoose
    | ok choice => exact justified_of_choice htable hchoose

/-- **One choice for all types**: the same one is converted to each type, or what stops it comes before
any conversion. -/
theorem resolve_uniform (a : Answering) (store : Store) (key : String) (context : Context) :
    (∃ r : Refusal, r.code ≠ .typeMismatch ∧ ∀ type default,
      a.resolve store key type default context = .ok (failure key default r)) ∨
    (∃ choice : Choice, ∀ type default,
      a.resolve store key type default context = .ok (answerOf key type default choice)) ∨
    ∃ cause, ∀ type default, a.resolve store key type default context = .error cause := by
  cases hchoice : a.chooseFrom store.table? key context with
  | ok choice => exact .inr (.inl ⟨choice, fun type default => resolve_of_choice hchoice⟩)
  | error stop =>
    cases stop with
    | overflow cause => exact .inr (.inr ⟨cause, fun type default => resolve_of_overflow hchoice⟩)
    | refused r =>
      refine .inl ⟨r, ?_, fun type default => resolve_of_refusal hchoice⟩
      rw [chooseFrom.eq_def] at hchoice
      split at hchoice
      · obtain rfl := Stop.refused.inj (Except.error.inj hchoice)
        exact fun h => nomatch h
      · exact (code_of_choose hchoice).2

end Answering

/-- The table of a run, if one was ever delivered. -/
theorem Outlet.table?_run (parser : Parser) (turns : List Turn) :
    (run parser turns).store.table? = lastTable? parser turns :=
  (holds_run turns).table?

/-- **The law of answers.**  After any row of deliveries a request is answered as the last table that was
delivered justifies, and not at all exactly if a sum in its rule does not fit; the type asked for decides
only how the one choice is converted; and a value that was converted is always of that type. -/
theorem Answering.resolve_justified (a : Answering) (parser : Parser) (turns : List Outlet.Turn)
    (key : String) (context : Context) :
    (∀ type default, a.Justified (Outlet.lastTable? parser turns) key context type default
        (a.resolve (Outlet.run parser turns).store key type default context)) ∧
      ((∃ r : Refusal, r.code ≠ .typeMismatch ∧ ∀ type default,
          a.resolve (Outlet.run parser turns).store key type default context =
            .ok (failure key default r)) ∨
        (∃ choice : Choice, ∀ type default,
          a.resolve (Outlet.run parser turns).store key type default context =
            .ok (answerOf key type default choice)) ∨
        ∃ cause, ∀ type default,
          a.resolve (Outlet.run parser turns).store key type default context = .error cause) ∧
      ∀ type raw, (FlagValue.coerce type raw).bind (·.as? type) = FlagValue.coerce type raw := by
  refine ⟨fun type default => ?_, resolve_uniform a _ key context, fun type raw => ?_⟩
  · rw [← Outlet.table?_run]
    exact justified_resolve a _ key context type default
  · cases hvalue : FlagValue.coerce type raw with
    | none => rfl
    | some value => exact as?_of_coerce hvalue

end FeatureFlags
