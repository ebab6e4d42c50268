import FeatureFlags.Evaluation.Value
import FeatureFlags.Metadata

/-!
# Evaluation/Resolution — the answer to a request for a flag

An answer may be a failure: it carries the caller's default with the reason `ERROR` and a code that says
what went wrong.
-/

namespace FeatureFlags

/-- Why a resolution has its value. -/
inductive Reason
  | static
  | default
  | targetingMatch
  | disabled
  | error
  deriving DecidableEq, Inhabited, Repr

def Reason.name : Reason → String
  | static => "STATIC"
  | default => "DEFAULT"
  | targetingMatch => "TARGETING_MATCH"
  | disabled => "DISABLED"
  | error => "ERROR"

/-- What went wrong in a resolution. -/
inductive ErrorCode
  | flagNotFound
  | typeMismatch
  | unreadable
  | notReady
  | general
  deriving DecidableEq, Inhabited, Repr

def ErrorCode.name : ErrorCode → String
  | flagNotFound => "FLAG_NOT_FOUND"
  | typeMismatch => "TYPE_MISMATCH"
  | unreadable => "PARSE_ERROR"
  | notReady => "PROVIDER_NOT_READY"
  | general => "GENERAL"

/-- **The answer to a request.** -/
structure Resolution (α : Type) where
  flagKey : String
  value : α
  variant : Option String
  reason : Reason
  errorCode : Option ErrorCode
  errorMessage : Option String
  metadata : Metadata

namespace Resolution

variable {α : Type}

def success (flagKey : String) (value : α) (variant : String) (reason : Reason)
    (metadata : Metadata) : Resolution α :=
  ⟨flagKey, value, some variant, reason, none, none, metadata⟩

def failure (flagKey : String) (default : α) (code : ErrorCode) (message : String)
    (metadata : Metadata) : Resolution α :=
  ⟨flagKey, default, none, .error, some code, some message, metadata⟩

def isError (r : Resolution α) : Bool := r.errorCode.isSome

end Resolution

end FeatureFlags
