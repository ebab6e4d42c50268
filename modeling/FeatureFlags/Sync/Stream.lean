import FeatureFlags.Config.Settings
import FeatureFlags.Sync.Backoff
import FeatureFlags.Sync.CallFailure
import FeatureFlags.Sync.Payload

/-!
# Sync/Stream — keeping a stream of configurations open

The client of the sync service calls it, hands on each configuration that the stream brings, and
calls again when the stream has ended, after a wait that `Backoff.reconnect` sets.  The first end
after a configuration, or after the start, is passed over in silence; every further one is reported.

What the service does is given as a `Service`, call by call; `Stream.run` gives what the client does
about it, with the time of each act in milliseconds.
-/

namespace FeatureFlags

/-! ## The service -/

/-- **What a stream brings.** -/
inductive StreamItem
  /-- A configuration, with annotations of its own or without. -/
  | configuration (text : String) (context : Option Metadata)
  | keepAlive
  /-- The stream breaks. -/
  | failure (code : StatusCode) (message : String)
  deriving Inhabited

/-- An item, and how long after the one before it comes. -/
structure TimedItem where
  delay : Nat
  item : StreamItem
  deriving Inhabited

/-- **What becomes of a call.** -/
inductive Attempt
  | refused (failure : CallFailure)
  /-- A stream; it ends so long after its last item, or never. -/
  | opened (items : List TimedItem) (ending : Option Nat)
  deriving Inhabited

/-- **What the service does.** -/
structure Service where
  /-- The answer to each call for metadata, by the number of the attempt; none when it fails. -/
  metadata : Nat → Option Metadata
  /-- What becomes of each call for a stream; a further call gets a stream that brings nothing. -/
  attempts : List Attempt
  deriving Inhabited

/-- A service whose streams bring nothing. -/
def Service.silent : Service := ⟨fun _ => some ∅, []⟩

/-! ## The client -/

/-- What the client asks for. -/
structure StreamRequest where
  providerId : Option String
  selector : Option String
  /-- How long the stream may last, in milliseconds. -/
  deadline : Option Nat
  deriving DecidableEq, Inhabited, Repr

def StreamRequest.ofSettings (s : Settings) : StreamRequest :=
  ⟨s.providerId, s.selector, s.streamDeadline⟩

/-- **How an attempt ended.** -/
inductive AttemptEnd
  | completed
  | failed (reason : String)
  deriving DecidableEq, Inhabited, Repr

def AttemptEnd.message : AttemptEnd → String
  | completed => "sync stream completed"
  | failed reason => "sync stream failed: " ++ reason

/-- **What the client does.** -/
inductive StreamAct
  /-- It calls the service. -/
  | call
  | send (payload : Payload)
  deriving Inhabited

/-- What an attempt leads to. -/
structure AttemptResult where
  sent : List (Nat × Payload)
  backoff : Backoff
  /-- When and how it ends, if it does. -/
  ended : Option (Nat × AttemptEnd)
  deriving Inhabited

namespace Stream

/-- **Follows a stream**: a configuration is handed on and sets the backoff back to its start; its
own annotations go before those that were called for. -/
def follow (metadata : Metadata) (now : Nat) (b : Backoff) (ending : Option Nat) :
    List TimedItem → AttemptResult
  | [] => ⟨[], b, ending.map fun delay => (now + delay, .completed)⟩
  | ⟨delay, .configuration text context⟩ :: rest =>
    let result := follow metadata (now + delay) b.reset ending rest
    { result with
      sent := (now + delay, .data text (context.getD metadata)) :: result.sent }
  | ⟨delay, .keepAlive⟩ :: rest => follow metadata (now + delay) b ending rest
  | ⟨delay, .failure code message⟩ :: _ =>
    ⟨[], b, some (now + delay, .failed (code.name ++ ": " ++ message))⟩

/-- An attempt from its call on. -/
def attempt (metadata : Metadata) (now : Nat) (b : Backoff) : Attempt → AttemptResult
  | .refused failure => ⟨[], b, some (now, .failed failure.message)⟩
  | .opened items ending => follow metadata now b ending items

/-- The end of an attempt goes unreported. -/
def isSilent (b : Backoff) : Bool := b.index == 0

/-- What is reported at the end of an attempt. -/
def report (b : Backoff) (now : Nat) (ended : AttemptEnd) : List (Nat × Payload) :=
  if isSilent b then [] else [(now, .fault ended.message)]

/-- **What the client does from a call on.**  The annotations called for and the random part of each
wait come from `metadata` and `draw`, by the number of the attempt. -/
def runFrom (metadata : Nat → Metadata) (greatestJitter : Nat) (draw : Nat → Nat)
    (number now : Nat) (b : Backoff) : List Attempt → List (Nat × StreamAct)
  | [] => [(now, .call)]
  | a :: rest =>
    let result := attempt (metadata number) now b a
    let sends (payloads : List (Nat × Payload)) : List (Nat × StreamAct) :=
      payloads.map fun (time, payload) => (time, .send payload)
    (now, .call) :: sends result.sent ++
      match result.ended with
      | none => []
      | some (time, ended) =>
        let (wait, b') := result.backoff.next greatestJitter (draw number)
        sends (report result.backoff time ended) ++
          runFrom metadata greatestJitter draw (number + 1) (time + wait) b' rest

/-- The annotations that go with the configurations of an attempt that bring none. -/
def calledMetadata (s : Settings) (service : Service) (number : Nat) : Metadata :=
  if s.syncMetadataDisabled then ∅ else (service.metadata number).getD ∅

/-- **What the client does**, from a start at time `now`. -/
def run (s : Settings) (service : Service) (draw : Nat → Nat) (now : Nat) :
    List (Nat × StreamAct) :=
  runFrom (calledMetadata s service) s.retryJitter draw 0 now
    (Backoff.reconnect s.retryBackoff s.retryBackoffMax) service.attempts

/-- What is sent, out of all acts. -/
def payloads (acts : List (Nat × StreamAct)) : List (Nat × Payload) :=
  acts.filterMap fun (time, act) =>
    match act with
    | .send payload => some (time, payload)
    | .call => none

/-- The times of the calls. -/
def calls (acts : List (Nat × StreamAct)) : List Nat :=
  acts.filterMap fun (time, act) =>
    match act with
    | .call => some time
    | .send _ => none

end Stream

end FeatureFlags
