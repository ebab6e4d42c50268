import FeatureFlags.Text.Quoted

/-!
# Sync/CallFailure — how a call to the sync service fails

The service answers a failed call with one of seventeen status codes and a message.
-/

namespace FeatureFlags

/-- **The status codes of calls.** -/
inductive StatusCode
  | ok
  | cancelled
  | unknown
  | invalidArgument
  | deadlineExceeded
  | notFound
  | alreadyExists
  | permissionDenied
  | resourceExhausted
  | failedPrecondition
  | aborted
  | outOfRange
  | unimplemented
  | internal
  | unavailable
  | dataLoss
  | unauthenticated
  deriving DecidableEq, Inhabited, Repr

namespace StatusCode

/-- The codes in the order of their numbers. -/
def all : List StatusCode := [ok, cancelled, unknown, invalidArgument, deadlineExceeded, notFound,
  alreadyExists, permissionDenied, resourceExhausted, failedPrecondition, aborted, outOfRange,
  unimplemented, internal, unavailable, dataLoss, unauthenticated]

/-- The code of a number; a number without a code is unknown. -/
def ofNumber (n : Nat) : StatusCode := all[n]?.getD unknown

def name : StatusCode → String
  | ok => "Ok"
  | cancelled => "Cancelled"
  | unknown => "Unknown"
  | invalidArgument => "InvalidArgument"
  | deadlineExceeded => "DeadlineExceeded"
  | notFound => "NotFound"
  | alreadyExists => "AlreadyExists"
  | permissionDenied => "PermissionDenied"
  | resourceExhausted => "ResourceExhausted"
  | failedPrecondition => "FailedPrecondition"
  | aborted => "Aborted"
  | outOfRange => "OutOfRange"
  | unimplemented => "Unimplemented"
  | internal => "Internal"
  | unavailable => "Unavailable"
  | dataLoss => "DataLoss"
  | unauthenticated => "Unauthenticated"

end StatusCode

/-- **Why a call was not answered with a stream.** -/
inductive CallFailure
  | status (code : StatusCode) (message : String)
  /-- The client is shut down. -/
  | closed
  deriving DecidableEq, Inhabited, Repr

namespace CallFailure

def message : CallFailure → String
  | status code message =>
    "rpc failed: status: " ++ code.name ++ ", message: " ++ Quoted.quote message ++
      ", details: [], metadata: MetadataMap \x7b headers: \x7b\x7d \x7d"
  | closed => "resolver has been shut down"

end CallFailure

end FeatureFlags
