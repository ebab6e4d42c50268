import FeatureFlags.Sync.Failure
import FeatureFlags.Sync.Reception
import FeatureFlags.Sync.Stream

/-!
# Sync/StreamSource — configurations from a stream

A source runs `Stream.run` from its start until its stop.  It can be started once, also after a
stop; a stop before the start does nothing.
-/

namespace FeatureFlags

/-- **A source that keeps a stream open**, from before its start until after its stop. -/
structure StreamSource where
  settings : Settings
  service : Service
  /-- When it was started. -/
  startedAt : Option Nat
  /-- When it was stopped. -/
  stoppedAt : Option Nat
  deriving Inhabited

namespace StreamSource

def create (settings : Settings) (service : Service) : StreamSource :=
  ⟨settings, service, none, none⟩

/-- **Starts the source**, which can be done once. -/
def start (s : StreamSource) (now : Nat) : Except Failure StreamSource :=
  if s.startedAt.isSome then .error .alreadyStarted else .ok { s with startedAt := some now }

/-- **Stops the source**; a further stop changes nothing. -/
def stop (s : StreamSource) (now : Nat) : StreamSource :=
  if s.startedAt.isSome && s.stoppedAt.isNone then { s with stoppedAt := some now } else s

/-- **What the source does.**  The act that is due at its stop is left out. -/
def acts (s : StreamSource) (draw : Nat → Nat) : List (Nat × StreamAct) :=
  match s.startedAt with
  | none => []
  | some now =>
    (Stream.run s.settings s.service draw now).filter fun act => s.stoppedAt.all (act.1 < ·)

/-- What the source asks for, call by call. -/
def requests (s : StreamSource) (draw : Nat → Nat) : List StreamRequest :=
  (Stream.calls (s.acts draw)).map fun _ => .ofSettings s.settings

/-- How often the source asks for metadata: with each call for a stream, unless it is not to. -/
def metadataCalls (s : StreamSource) (draw : Nat → Nat) : Nat :=
  if s.settings.syncMetadataDisabled then 0 else (s.requests draw).length

/-- What the source hands on, with the times. -/
def sent (s : StreamSource) (draw : Nat → Nat) : List (Nat × Payload) :=
  Stream.payloads (s.acts draw)

/-- **What a reader gets** who starts at `first`, with the times. -/
def received (s : StreamSource) (draw : Nat → Nat) (first stop : Nat) : List (Nat × Payload) :=
  Reception.received first stop (s.sent draw)

/-- A reader who has read all there is gets nothing more. -/
def isClosed (s : StreamSource) : Bool := s.stoppedAt.isSome

end StreamSource

end FeatureFlags
