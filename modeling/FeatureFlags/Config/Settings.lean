import FeatureFlags.Config.Layer

/-!
# Config/Settings — settings in force

`Layer.settle` fills in the defaults; `Settings.check` finds what makes the settings unusable.
-/

namespace FeatureFlags

/-- **Settings in force.**  Times are in milliseconds. -/
structure Settings where
  host : String
  port : Nat
  tls : Bool
  certPath : Option String
  selector : Option String
  providerId : Option String
  /-- How long calls, connecting and the first configuration may take. -/
  deadline : Nat
  /-- How long a stream may last, if that is limited. -/
  streamDeadline : Option Nat
  retryBackoff : Nat
  retryBackoffMax : Nat
  retryJitter : Nat
  keepAlive : Option Nat
  /-- The file that flags are read from instead of a service. -/
  offlineFlagSourcePath : Option String
  offlinePollInterval : Nat
  syncMetadataDisabled : Bool
  throwIfInvalid : Bool
  shutdownGrace : Nat
  deriving DecidableEq, Inhabited, Repr

namespace Layer

/-- Zero stands for no limit. -/
def limit (ms : Nat) : Option Nat := if ms = 0 then none else some ms

def nonEmpty (s : Option String) : Option String := s.filter fun s => !s.isEmpty

/-- **Fills in the defaults.** -/
def settle (l : Layer) : Settings where
  host := l.host.getD "localhost"
  port := l.port.getD 8015
  tls := l.tls.getD false
  certPath := l.certPath
  selector := nonEmpty l.selector
  providerId := nonEmpty l.providerId
  deadline := l.deadline.getD 500
  streamDeadline := limit (l.streamDeadline.getD 600000)
  retryBackoff := l.retryBackoff.getD 1000
  retryBackoffMax := l.retryBackoffMax.getD 120000
  retryJitter := l.retryJitter.getD 256
  keepAlive := limit (l.keepAlive.getD 0)
  offlineFlagSourcePath := l.offlineFlagSourcePath
  offlinePollInterval := l.offlinePollInterval.getD 5000
  syncMetadataDisabled := l.syncMetadataDisabled.getD false
  throwIfInvalid := l.throwIfInvalid.getD false
  shutdownGrace := l.shutdownGrace.getD 2000

end Layer

/-- **Why settings are unusable.** -/
inductive SettingsFault
  | noDeadline
  | backoffRange (highest lowest : Nat)
  | noHost
  | noPort
  | noPollInterval
  deriving DecidableEq, Inhabited, Repr

namespace SettingsFault

def message (f : SettingsFault) : String :=
  "invalid configuration: " ++ match f with
    | noDeadline => "deadline_ms must be greater than zero"
    | backoffRange highest lowest =>
      "retry_backoff_max_ms (" ++ toString highest ++ ") is lower than retry_backoff_ms (" ++
        toString lowest ++ ")"
    | noHost => "host must not be empty"
    | noPort => "port must not be zero"
    | noPollInterval => "offline_poll_interval_ms must be greater than zero"

end SettingsFault

namespace Settings

/-- The scheme of the address of the service. -/
def scheme (s : Settings) : String := if s.tls then "https" else "http"

/-- Host and port of the service. -/
def authority (s : Settings) : String := s.host ++ ":" ++ toString s.port

/-- The address of the service. -/
def endpoint (s : Settings) : String := s.scheme ++ "://" ++ s.authority

/-- Flags come from a file. -/
def isOffline (s : Settings) : Bool := s.offlineFlagSourcePath.isSome

/-- **The first thing wrong with the settings.**  Host and port do not matter offline. -/
def fault? (s : Settings) : Option SettingsFault :=
  if s.deadline = 0 then some .noDeadline
  else if s.retryBackoffMax < s.retryBackoff then
    some (.backoffRange s.retryBackoffMax s.retryBackoff)
  else if !s.isOffline && s.host.isEmpty then some .noHost
  else if !s.isOffline && s.port = 0 then some .noPort
  else if s.offlinePollInterval = 0 then some .noPollInterval
  else none

/-- **When settings are usable.** -/
theorem fault?_eq_none_iff {s : Settings} :
    s.fault? = none ↔ s.deadline ≠ 0 ∧ s.retryBackoff ≤ s.retryBackoffMax ∧
      (s.isOffline = false → s.host.isEmpty = false ∧ s.port ≠ 0) ∧ s.offlinePollInterval ≠ 0 := by
  rw [fault?]
  grind

end Settings

end FeatureFlags
