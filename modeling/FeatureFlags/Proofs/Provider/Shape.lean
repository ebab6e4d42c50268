import FeatureFlags.Proofs.Document.Shape
import FeatureFlags.Proofs.Provider.Metadata

/-!
# Proofs/Provider/Shape — what the shape of a document promises to whoever asks

A flag that can be served and names a default is always answered, unless it has a rule of its own
(`Answering.resolve_of_isServable`).  So a document of the right shape has one table, however its
shape is checked, and while that table is in force such a flag fails at most for its type
(`Document.table_of_no_violations`).

The checks of the shape do not look at the length of names: a document of the right shape has no table if
it names a fragment by half a million letters (`Document.no_table_of_letters`).
-/

namespace FeatureFlags

open Json

/-- **A flag that can be served is served**: enabled, without a rule and with a default, it is answered,
and fails at most for its type. -/
theorem Answering.resolve_of_isServable {a : Answering} {store : Store} {table : FlagSet}
    {key : String} {flag : Flag} (htable : store.table? = some table)
    (hflag : table.get? key = some flag) (hservable : flag.IsServable) (henabled : flag.isEnabled = true)
    (hrule : flag.rule = none) (hdefault : flag.defaultVariant ≠ "") (type : FlagType)
    (default : FlagValue) (context : Context) :
    ∃ answer, a.resolve store key type default context = .ok answer ∧
      ∀ code, answer.errorCode = some code → code = .typeMismatch := by
  obtain ⟨value, hvalue⟩ := Option.isSome_iff_exists.mp (hservable.default hdefault)
  have hchoice : a.chooseFrom store.table? key context =
      .ok ⟨flag.defaultVariant, value, .static, metadataOf table flag⟩ := by
    rw [htable]
    exact chooses_iff.mp (.mk hflag henabled (.static hrule) hvalue)
  refine ⟨_, resolve_of_choice hchoice, fun code hcode => ?_⟩
  rw [answerOf_eq] at hcode
  split at hcode
  · cases hcode
  · exact (Option.some.inj hcode).symm

namespace Document

open Fragments

/-- **The checks and the decoders agree.**  A text without references whose document has no faults has
one table, however its shape is checked, unless a fragment is refused for its name.  Its keys are those
of the document, and each of its flags has variants and a default that is empty or one of them.

So once that text was delivered, and until another table comes, an enabled flag that has a default and no
rule is answered, and not refused but for its type. -/
theorem table_of_no_violations {text : String} {document : Json} (hread : read? text = some document)
    (hfree : IsFree text.toList) (hshape : Schema.violations document = []) :
    ∃ flags table, document.member? "flags" = some (.obj flags) ∧
      (∀ parser : Parser, parse parser text =
        (refused? parser.refusal? (declared document)).elim (.ok table) (.error <| .badFragment ·)) ∧
      table.flags.keys = flags.map (·.1) ∧
      (∀ key flag, table.get? key = some flag → flag.IsServable) ∧
      ∀ (a : Answering) (parser : Parser), refused? parser.refusal? (declared document) = none →
        ∀ (delivered : Metadata) (before after : List Outlet.Turn),
          (∀ payload ∈ Outlet.deliveries after, payload.table? parser = none) →
          ∀ key flag, table.get? key = some flag → flag.isEnabled = true → flag.rule = none →
            flag.defaultVariant ≠ "" → ∀ type default context, ∃ answer,
              a.resolve (Outlet.run parser (before ++ .delivery (.data text delivered) :: after)).store
                  key type default context = .ok answer ∧
                ∀ code, answer.errorCode = some code → code = .typeMismatch := by
  have hreadText : readText text.toList = .ok document := by
    rw [readText, show (Token.ofText? _).bind _ = _ from hread]
  obtain ⟨flags, table, hfound, hdecode, hkeys, hservable⟩ :=
    exists_decode (ascending_of_readText hreadText) hshape
  have hparse (parser : Parser) : parse parser text =
      (refused? parser.refusal? (declared document)).elim (.ok table) (.error <| .badFragment ·) :=
    hdecode ▸ parse_of_free parser hread hfree hshape
  refine ⟨flags, table, hfound, hparse, hkeys, hservable, ?_⟩
  intro a parser hnames delivered before after hafter key flag hflag henabled hrule hdefault type default
    context
  have htable : (Outlet.run parser (before ++ .delivery (.data text delivered) :: after)).store.table? =
      some (table.withDeliveryMetadata delivered) := by
    have hparsed : parse parser text = .ok table := by rw [hparse, hnames, Option.elim_none]
    rw [Outlet.table?_run]
    exact Outlet.lastTable?_of_none_later (Payload.table?_of_parse hparsed) before hafter
  exact Answering.resolve_of_isServable htable hflag (hservable key flag hflag) henabled hrule hdefault
    type default context

/-- A document with a fragment that nothing refers to and a flag without a default. -/
def shapelyText : String :=
  "\x7b\"$evaluators\":\x7b\"e\":\x7b\x7d\x7d,\"flags\":\x7b" ++
    "\"b\":\x7b\"state\":\"ENABLED\",\"variants\":\x7b\"on\":1\x7d,\"defaultVariant\":\"on\"\x7d," ++
    "\"a\":\x7b\"state\":\"DISABLED\",\"variants\":\x7b\"\":1\x7d\x7d\x7d\x7d"

/-- Asked for in another type, the one flag that is enabled fails for its type. -/
theorem table_of_no_violations_shapely :
    ∃ table, (∀ check, parse (.standard check) shapelyText = .ok table) ∧
      table.flags.keys = ["a", "b"] ∧
      ∃ answer, (⟨.standard, none, 0⟩ : Answering).resolve
          (Outlet.run (.standard .strict) ([] ++ .delivery (.data shapelyText ∅) :: [])).store "b" .text
          (.text "") ∅ = .ok answer ∧
        answer.errorCode = some .typeMismatch := by
  have hread : (read? shapelyText).map (fun document => (Schema.violations document,
      ((document.member? "flags").bind Json.members?).map (List.map Prod.fst),
      (refused? tooBig? (declared document)).isNone)) =
      some ([], some ["a", "b"], true) := by decide +kernel
  obtain ⟨document, hread, hdocument⟩ := Option.map_eq_some_iff.mp hread
  obtain ⟨hshape, hdocument⟩ := Prod.mk.inj hdocument
  obtain ⟨hkeys, hnames⟩ := Prod.mk.inj hdocument
  rw [Option.isNone_iff_eq_none] at hnames
  obtain ⟨flags, table, hfound, hparse, hflags, -, hserved⟩ :=
    table_of_no_violations hread (by decide +kernel) hshape
  have hparse (check : ShapeCheck) : parse (.standard check) shapelyText = .ok table := by
    rw [hparse, Parser.standard, hnames, Option.elim_none]
  have hflag : ((parse (.standard .strict) shapelyText).toOption.bind (·.get? "b")).map (fun flag =>
      (flag.isEnabled, flag.rule.isNone, flag.defaultVariant)) = some (true, true, "on") := by
    decide +kernel
  rw [hparse] at hflag
  obtain ⟨flag, hget, hflag⟩ := Option.map_eq_some_iff.mp hflag
  obtain ⟨henabled, hrest⟩ := Prod.mk.inj hflag
  obtain ⟨hrule, hdefault⟩ := Prod.mk.inj hrest
  have hfails : ((⟨.standard, none, 0⟩ : Answering).resolve
      (Outlet.run (.standard .strict) ([] ++ .delivery (.data shapelyText ∅) :: [])).store "b" .text
        (.text "") ∅).toOption.bind (·.errorCode) = some .typeMismatch := by decide +kernel
  have hafter : ∀ payload ∈ Outlet.deliveries [], payload.table? (.standard .strict) = none :=
    List.forall_mem_nil _
  obtain ⟨answer, hanswer, -⟩ := hserved ⟨.standard, none, 0⟩ (.standard .strict) hnames ∅ [] []
    hafter "b" flag hget henabled (Option.isNone_iff_eq_none.mp hrule) (hdefault ▸ by decide) .text
    (.text "") ∅
  refine ⟨table, hparse, ?_, answer, hanswer, ?_⟩
  · rw [hfound] at hkeys
    exact hflags.trans (Option.some.inj hkeys)
  · rw [hanswer] at hfails
    exact hfails

/-! ## Names that are too long -/

section Letters

variable {n : Nat}

/-- A name of so many letters. -/
def letters (n : Nat) : String := String.ofList (List.replicate n 'a')

/-- A document without flags that gives its one fragment that name. -/
def lettersValue (n : Nat) : Json :=
  .obj [("$evaluators", .obj [(letters n, .obj [])]), ("flags", .obj [])]

theorem settled_lettersValue : (lettersValue n).settled = lettersValue n := by
  have hparts : "$evaluators" < "flags" := by decide
  have hparts' : ¬ "flags" < "$evaluators" := by decide
  simp [lettersValue, settled, settledMembers, insertEntry, hparts, hparts']

theorem read?_lettersValue : read? (lettersValue n).print = some (lettersValue n) := by
  have hreadable : All IsReadable (lettersValue n) := by
    simp [lettersValue, all_obj, IsReadable]
  rw [read?_print hreadable, if_pos (by simp [lettersValue, depth, membersDepth, Builder.deepest]),
    settled_lettersValue]

theorem isFree_cons {c : Char} {cs : List Char} :
    IsFree (c :: cs) ↔ ¬ ['$', 'r', 'e', 'f'] <+: c :: cs ∧ IsFree cs := by
  rw [IsFree, List.infix_cons_iff, not_or, IsFree]

theorem isFree_lettersValue : IsFree (lettersValue n).print.toList := by
  have hletters (cs : List Char) (h : IsFree cs) : IsFree (List.replicate n 'a' ++ cs) := by
    induction n with
    | zero => exact h
    | succ n ih => exact isFree_cons.mpr ⟨by simp, ih⟩
  have hname : (letters n).toList.flatMap Token.escapeChar = List.replicate n 'a' := by
    rw [letters, String.toList_ofList, List.flatMap_replicate]
    simp [Token.escapeChar]
  have htext : (lettersValue n).print.toList = "\x7b\"$evaluators\":\x7b\"".toList ++
      (List.replicate n 'a' ++ "\":\x7b\x7d\x7d,\"flags\":\x7b\x7d\x7d".toList) := by
    rw [Json.print, String.toList_ofList]
    simp [lettersValue, chars, tokens, memberTokens, moreMembers, Token.text, Token.quote, hname]
    rfl
  have hrest := hletters "\":\x7b\x7d\x7d,\"flags\":\x7b\x7d\x7d".toList (by decide +kernel)
  rw [htext]
  generalize List.replicate n 'a' ++ _ = rest at hrest ⊢
  simp [isFree_cons, hrest]

theorem utf8ByteSize_letters (n : Nat) : (letters n).utf8ByteSize = n := by
  rw [letters]
  induction n with
  | zero => rfl
  | succ n ih =>
    have hletter : (String.singleton 'a').utf8ByteSize = 1 := by decide
    rw [List.replicate_succ, String.ofList_cons, String.utf8ByteSize_append, ih, hletter, Nat.add_comm]

/-- A name of more letters than fit is refused. -/
theorem tooBig?_letters (h : patternLimit < 32 * n) :
    tooBig? (letters n) = some "Compiled regex exceeds size limit of 10485760 bytes." := by
  have hsize : patternSize (letters n) = 32 * n := by
    rw [patternSize, utf8ByteSize_letters]
  rw [tooBig?, hsize, if_neg (by omega)]
  decide

theorem violations_lettersValue : Schema.violations (lettersValue n) = [] := rfl

theorem parse_lettersValue (h : patternLimit < 32 * n) (check : ShapeCheck) :
    parse (.standard check) (lettersValue n).print = .error (.badFragment
      ⟨letters n, "Compiled regex exceeds size limit of 10485760 bytes."⟩) := by
  have hrefused : refused? tooBig? (declared (lettersValue n)) = some
      ⟨letters n, "Compiled regex exceeds size limit of 10485760 bytes."⟩ := by
    change refused? tooBig? [(letters n, .obj [])] = _
    rw [refused?, List.findSome?_cons, tooBig?_letters h, Option.map_some]
  rw [parse_of_free _ read?_lettersValue isFree_lettersValue violations_lettersValue, Parser.standard,
    hrefused, Option.elim_some]

/-- **A document without faults has no table if a name is too long**, however its shape is checked. -/
theorem no_table_of_letters :
    read? (lettersValue 600000).print = some (lettersValue 600000) ∧
      IsFree (lettersValue 600000).print.toList ∧ Schema.violations (lettersValue 600000) = [] ∧
      ∀ check, parse (.standard check) (lettersValue 600000).print = .error (.badFragment
        ⟨letters 600000, "Compiled regex exceeds size limit of 10485760 bytes."⟩) :=
  ⟨read?_lettersValue, isFree_lettersValue, violations_lettersValue, parse_lettersValue (by decide)⟩

end Letters

end Document

end FeatureFlags
