import FeatureFlags.Json.Basic
import FeatureFlags.Text.Numeral
import FeatureFlags.Toml.Reader

/-!
# Config/Layer — layers of settings

A layer says some of the settings and leaves the others open.  `Layer.overlay` puts one layer over
another.  A layer is read setting by setting through a `SettingReader`, which knows one place where
settings are kept: a JSON value, a TOML table, the environment.

Times are in milliseconds.
-/

namespace FeatureFlags

/-- **The settings.** -/
inductive Setting
  | host
  | port
  | tls
  | certPath
  | selector
  | providerId
  | deadline
  | streamDeadline
  | retryBackoff
  | retryBackoffMax
  | retryJitter
  | keepAlive
  | offlineFlagSourcePath
  | offlinePollInterval
  | syncMetadataDisabled
  | throwIfInvalid
  | shutdownGrace
  deriving DecidableEq, Inhabited, Repr

namespace Setting

/-- The settings in order. -/
def all : List Setting := [host, port, tls, certPath, selector, providerId, deadline,
  streamDeadline, retryBackoff, retryBackoffMax, retryJitter, keepAlive, offlineFlagSourcePath,
  offlinePollInterval, syncMetadataDisabled, throwIfInvalid, shutdownGrace]

/-- The name of a setting in files. -/
def key : Setting → String
  | host => "host"
  | port => "port"
  | tls => "tls"
  | certPath => "cert_path"
  | selector => "selector"
  | providerId => "provider_id"
  | deadline => "deadline_ms"
  | streamDeadline => "stream_deadline_ms"
  | retryBackoff => "retry_backoff_ms"
  | retryBackoffMax => "retry_backoff_max_ms"
  | retryJitter => "retry_jitter_ms"
  | keepAlive => "keep_alive_ms"
  | offlineFlagSourcePath => "offline_flag_source_path"
  | offlinePollInterval => "offline_poll_interval_ms"
  | syncMetadataDisabled => "sync_metadata_disabled"
  | throwIfInvalid => "throw_if_invalid"
  | shutdownGrace => "shutdown_grace_ms"

/-- The name of a setting in the environment. -/
def variableName : Setting → String
  | host => "FLAGD_HOST"
  | port => "FLAGD_PORT"
  | tls => "FLAGD_TLS"
  | certPath => "FLAGD_SERVER_CERT_PATH"
  | selector => "FLAGD_SOURCE_SELECTOR"
  | providerId => "FLAGD_PROVIDER_ID"
  | deadline => "FLAGD_DEADLINE_MS"
  | streamDeadline => "FLAGD_STREAM_DEADLINE_MS"
  | retryBackoff => "FLAGD_RETRY_BACKOFF_MS"
  | retryBackoffMax => "FLAGD_RETRY_BACKOFF_MAX_MS"
  | retryJitter => "FLAGD_RETRY_JITTER_MS"
  | keepAlive => "FLAGD_KEEP_ALIVE_TIME_MS"
  | offlineFlagSourcePath => "FLAGD_OFFLINE_FLAG_SOURCE_PATH"
  | offlinePollInterval => "FLAGD_OFFLINE_POLL_MS"
  | syncMetadataDisabled => "FLAGD_SYNC_METADATA_DISABLED"
  | throwIfInvalid => "FLAGD_THROW_IF_INVALID"
  | shutdownGrace => "FLAGD_SHUTDOWN_GRACE_MS"

end Setting

/-- **A layer of settings.**  What it does not say is left to the layers below. -/
structure Layer where
  host : Option String
  port : Option Nat
  tls : Option Bool
  certPath : Option String
  selector : Option String
  providerId : Option String
  deadline : Option Nat
  streamDeadline : Option Nat
  retryBackoff : Option Nat
  retryBackoffMax : Option Nat
  retryJitter : Option Nat
  keepAlive : Option Nat
  offlineFlagSourcePath : Option String
  offlinePollInterval : Option Nat
  syncMetadataDisabled : Option Bool
  throwIfInvalid : Option Bool
  shutdownGrace : Option Nat
  deriving DecidableEq, Inhabited, Repr

namespace Layer

/-- The layer that says nothing. -/
def empty : Layer := ⟨none, none, none, none, none, none, none, none, none, none, none, none, none,
  none, none, none, none⟩

instance : EmptyCollection Layer := ⟨empty⟩

/-- **Puts a layer over another**: what `upper` says stands. -/
def overlay (base upper : Layer) : Layer where
  host := upper.host <|> base.host
  port := upper.port <|> base.port
  tls := upper.tls <|> base.tls
  certPath := upper.certPath <|> base.certPath
  selector := upper.selector <|> base.selector
  providerId := upper.providerId <|> base.providerId
  deadline := upper.deadline <|> base.deadline
  streamDeadline := upper.streamDeadline <|> base.streamDeadline
  retryBackoff := upper.retryBackoff <|> base.retryBackoff
  retryBackoffMax := upper.retryBackoffMax <|> base.retryBackoffMax
  retryJitter := upper.retryJitter <|> base.retryJitter
  keepAlive := upper.keepAlive <|> base.keepAlive
  offlineFlagSourcePath := upper.offlineFlagSourcePath <|> base.offlineFlagSourcePath
  offlinePollInterval := upper.offlinePollInterval <|> base.offlinePollInterval
  syncMetadataDisabled := upper.syncMetadataDisabled <|> base.syncMetadataDisabled
  throwIfInvalid := upper.throwIfInvalid <|> base.throwIfInvalid
  shutdownGrace := upper.shutdownGrace <|> base.shutdownGrace

end Layer

/-! ## Reading -/

/-- **How settings are read in some place**; a number has a greatest value. -/
structure SettingReader (ε : Type) where
  text : Setting → Except ε (Option String)
  flag : Setting → Except ε (Option Bool)
  number : Nat → Setting → Except ε (Option Nat)

namespace Layer

/-- The greatest port. -/
def greatestPort : Nat := 65535

/-- **Reads a layer**, setting by setting; the first that cannot be read decides. -/
def read {ε : Type} (r : SettingReader ε) : Except ε Layer := do
  let time := r.number Numeral.greatest64
  pure {
    host := ← r.text .host
    port := ← r.number greatestPort .port
    tls := ← r.flag .tls
    certPath := ← r.text .certPath
    selector := ← r.text .selector
    providerId := ← r.text .providerId
    deadline := ← time .deadline
    streamDeadline := ← time .streamDeadline
    retryBackoff := ← time .retryBackoff
    retryBackoffMax := ← time .retryBackoffMax
    retryJitter := ← time .retryJitter
    keepAlive := ← time .keepAlive
    offlineFlagSourcePath := ← r.text .offlineFlagSourcePath
    offlinePollInterval := ← time .offlinePollInterval
    syncMetadataDisabled := ← r.flag .syncMetadataDisabled
    throwIfInvalid := ← r.flag .throwIfInvalid
    shutdownGrace := ← time .shutdownGrace }

/-- A setting that is absent, or read by a partial function. -/
def ifPresent {α β : Type} (f : α → Option β) : Option α → Except Unit (Option β)
  | none => .ok none
  | some v => match f v with
    | some x => .ok (some x)
    | none => .error ()

/-! ### From JSON -/

/-- A value that is there and not null. -/
def given : Option Json → Option Json
  | some .null => none
  | v => v

def boolOfJson? : Json → Option Bool
  | .bool b => some b
  | _ => none

def numberOfJson? (greatest : Nat) : Json → Option Nat
  | .num n => n.uint64?.filter (· ≤ greatest)
  | _ => none

/-- Settings that are found as JSON values. -/
def jsonReader (at? : Setting → Option Json) : SettingReader Unit where
  text s := ifPresent Json.string? (given (at? s))
  flag s := ifPresent boolOfJson? (given (at? s))
  number greatest s := ifPresent (numberOfJson? greatest) (given (at? s))

/-- The value of a setting in a row of all of them. -/
def inRow (items : List Json) (s : Setting) : Option Json :=
  (Setting.all.idxOf? s).bind fun i => items[i]?

/-- **A layer in JSON**: an object with some of the settings, or an array of all of them. -/
def ofJson? : Json → Option Layer
  | .obj members => (read (jsonReader fun s => valueAt? s.key members)).toOption
  | .arr items =>
    if items.length = Setting.all.length then (read (jsonReader (inRow items))).toOption else none
  | _ => none

/-! ### From TOML -/

def textOfToml? : Toml.Value → Option String
  | .text s => some s
  | _ => none

def boolOfToml? : Toml.Value → Option Bool
  | .boolean b => some b
  | _ => none

def numberOfToml? (greatest : Nat) : Toml.Value → Option Nat
  | .integer i => if 0 ≤ i ∧ i.toNat ≤ greatest then some i.toNat else none
  | _ => none

def tomlReader (entries : Toml.Entries) : SettingReader Unit where
  text s := ifPresent textOfToml? (valueAt? s.key entries)
  flag s := ifPresent boolOfToml? (valueAt? s.key entries)
  number greatest s := ifPresent (numberOfToml? greatest) (valueAt? s.key entries)

/-- **A layer in the text of a TOML document.** -/
def ofToml? (text : String) : Option Layer :=
  (Toml.read? text).bind fun entries => (read (tomlReader entries)).toOption

end Layer

end FeatureFlags
