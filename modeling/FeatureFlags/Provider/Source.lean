import FeatureFlags.Sync.Address
import FeatureFlags.Sync.FileSource
import FeatureFlags.Sync.ServerName
import FeatureFlags.Sync.Stream

/-!
# Provider/Source — where a resolver gets its configurations

A resolver gets them pushed by the program it is part of, from a stream of the sync service or from
a file.  A source that runs is a `Feed`; `Feed.next?` tells what it delivers next, and when.
-/

namespace FeatureFlags

/-- **Where configurations come from.** -/
inductive Source
  /-- The program pushes them, some of them at each start. -/
  | pushed (initial : List Payload)
  /-- A stream of the sync service. -/
  | stream (settings : Settings) (service : Service)
  | file (path : String) (interval : Nat)
  deriving Inhabited

namespace Source

/-- **Checks the settings of a connection.**  A certificate is looked for among `files`. -/
def checkConnection (s : Settings) (files : String → Bool) : Except Failure Unit :=
  if !Address.isWellFormed (s.scheme ++ "://") s.authority then .error (.badAddress s.endpoint)
  else if !s.tls then .ok ()
  else if s.certPath.any (!files ·) then .error .unreadableCertificate
  else if !ServerName.isValid s.host then .error .badServerName
  else .ok ()

/-- **The source that settings ask for**: a file if they name one, else the service. -/
def ofSettings (s : Settings) (files : String → Bool) (service : Service) :
    Except Failure Source :=
  match s.offlineFlagSourcePath with
  | some path => .ok (.file path s.offlinePollInterval)
  | none => (checkConnection s files).map fun () => .stream s service

end Source

/-- **A source that runs.** -/
inductive Feed
  /-- Not started, or stopped. -/
  | idle
  /-- The program may push. -/
  | accepting
  /-- Deliveries to come, with their times. -/
  | coming (deliveries : List (Nat × Payload))
  | watching (watch : FileWatch)
  deriving Inhabited

namespace Feed

/-- **Starts a source** at time `now`: what it delivers at once, and how it goes on. -/
def start (draw : Nat → Nat) (now : Nat) : Source → List Payload × Feed
  | .pushed initial => (newest Queue.capacity initial, .accepting)
  | .stream s service => ([], .coming (Stream.payloads (Stream.run s service draw now)))
  | .file path interval => ([], .watching (.begin path interval now))

/-- **What comes next**, and when; a look at a file may bring nothing. -/
def next? (file : Option DiskFile) : Feed → Option (Nat × Option Payload × Feed)
  | idle => none
  | accepting => none
  | coming [] => none
  | coming ((time, payload) :: rest) => some (time, some payload, coming rest)
  | watching w =>
    let (w', payload) := w.look file
    some (w.due, payload, watching w')

/-- At least as many as the deliveries up to a time. -/
def bound (time : Nat) : Feed → Nat
  | idle => 0
  | accepting => 0
  | coming deliveries => deliveries.length
  | watching w => w.looksBefore (time + 1)

end Feed

end FeatureFlags
