import FeatureFlags.Evaluation.Context
import FeatureFlags.Evaluation.Resolution
import FeatureFlags.Store
import FeatureFlags.Targeting.Evaluation

/-!
# Provider/Answer — answering a request from the table in force

A request names a flag, a type and a context.  `Answering.choose` finds the flag, lets its rule or
its default name a variant and takes that variant's value; only then does the type matter.
`Answering.resolve` makes an answer of it: on any failure the caller's default, with a code.  Only when
the rule breaks off at a sum that does not fit there is no answer.

Annotations of the table go under those of the flag; a context made from the annotations of the
table goes under the caller's.
-/

namespace FeatureFlags

/-- **What an answer depends on besides the table.** -/
structure Answering where
  operations : Operations
  /-- Makes a context of the annotations of the table. -/
  enrich : Option (Metadata → Context)
  /-- The time in seconds. -/
  time : Int

/-- **A variant that was chosen**, before the type matters. -/
structure Choice where
  variant : String
  value : Json
  reason : Reason
  metadata : Metadata
  deriving Inhabited

/-- **Why a request fails**; the caller is told. -/
structure Refusal where
  code : ErrorCode
  message : String
  metadata : Metadata
  deriving Inhabited

/-- **What stops a choice**: a refusal, or a sum in the rule that does not fit. -/
inductive Stop
  | refused (r : Refusal)
  | overflow (cause : Overflow)
  deriving Inhabited

namespace Answering

/-- The flag of a key as messages name it. -/
def named (key : String) : String := "flag `" ++ key ++ "`"

/-- **The enabled flag under a key.** -/
def findFlag (table : FlagSet) (key : String) : Except Refusal Flag :=
  match table.get? key with
  | none => .error ⟨.flagNotFound, named key ++ " not found", table.metadata⟩
  | some flag =>
    if flag.isEnabled then .ok flag
    else .error ⟨.flagNotFound, named key ++ " is disabled", table.metadata⟩

/-- The annotations of a flag over those of its table. -/
def metadataOf (table : FlagSet) (flag : Flag) : Metadata := table.metadata.overlay flag.metadata

/-- **The context that a rule sees**: the caller's over one made of the table's annotations. -/
def contextOf (a : Answering) (table : FlagSet) (context : Context) : Context :=
  match a.enrich with
  | none => context
  | some enrich => (enrich table.metadata).overlay context

/-- How a rule without a result stops the choice. -/
def stopOf (metadata : Metadata) : RuleError → Stop
  | .overflow cause => .overflow cause
  | e => .refused ⟨.unreadable, e.message, metadata⟩

/-- **The name of the variant**, by the rule of the flag or by its default, and why it is that. -/
def nameVariant (a : Answering) (table : FlagSet) (key : String) (flag : Flag) (context : Context) :
    Except Stop (String × Reason) :=
  match flag.rule with
  | none => .ok (flag.defaultVariant, .static)
  | some rule =>
    let metadata := metadataOf table flag
    match Targeting.evaluate a.operations key a.time rule (a.contextOf table context).toObject with
    | .error e => .error (stopOf metadata e)
    | .ok result =>
      match Outcome.ofResult result with
      | .variant name => .ok (name, .targetingMatch)
      | .default => .ok (flag.defaultVariant, .default)
      | .unusable message => .error (.refused ⟨.general, message, metadata⟩)

/-- The refusal for a name that no variant has. -/
def missingVariant (key : String) (flag : Flag) (name : String) (metadata : Metadata) : Refusal :=
  if name.isEmpty && flag.defaultVariant.isEmpty then
    ⟨.flagNotFound, named key ++ " has no default variant configured", metadata⟩
  else ⟨.general, named key ++ " has no variant `" ++ name ++ "`", metadata⟩

/-- **Chooses a variant.** -/
def choose (a : Answering) (table : FlagSet) (key : String) (context : Context) :
    Except Stop Choice := do
  let flag ← (findFlag table key).mapError .refused
  let (name, reason) ← a.nameVariant table key flag context
  match flag.variant? name with
  | some value => pure ⟨name, value, reason, metadataOf table flag⟩
  | none => throw (.refused (missingVariant key flag name (metadataOf table flag)))

/-- The refusal before the first table. -/
def notReady : Refusal := ⟨.notReady, "no flag configuration received yet", ∅⟩

/-- The choice from the table in force, if there is one. -/
def chooseFrom (a : Answering) (table : Option FlagSet) (key : String) (context : Context) :
    Except Stop Choice :=
  match table with
  | none => .error (.refused notReady)
  | some table => a.choose table key context

/-- The refusal for a variant of another type. -/
def otherType (key : String) (type : FlagType) (choice : Choice) : Refusal :=
  ⟨.typeMismatch,
    "variant `" ++ choice.variant ++ "` of " ++ named key ++ " is not a " ++ type.name,
    choice.metadata⟩

/-- The refusal for a value of another type than that of its variant. -/
def otherValue (key : String) (type : FlagType) (choice : Choice) : Refusal :=
  ⟨.typeMismatch, named key ++ " is not a " ++ type.name, choice.metadata⟩

def failure (key : String) (default : FlagValue) (r : Refusal) : Resolution FlagValue :=
  Resolution.failure key default r.code r.message r.metadata

/-- **What a choice gives in a type**, or the caller's default if it is of another one. -/
def answerOf (key : String) (type : FlagType) (default : FlagValue) (choice : Choice) :
    Resolution FlagValue :=
  match FlagValue.coerce type choice.value with
  | none => failure key default (otherType key type choice)
  | some value =>
    match value.as? type with
    | none => failure key default (otherValue key type choice)
    | some value => .success key value choice.variant choice.reason choice.metadata

/-- **Answers a request**, by the caller's default when all else fails; there is no answer if the rule
breaks off. -/
def resolve (a : Answering) (store : Store) (key : String) (type : FlagType) (default : FlagValue)
    (context : Context) : Except Overflow (Resolution FlagValue) :=
  match a.chooseFrom store.table? key context with
  | .error (.refused r) => .ok (failure key default r)
  | .error (.overflow cause) => .error cause
  | .ok choice => .ok (answerOf key type default choice)

end Answering

end FeatureFlags
