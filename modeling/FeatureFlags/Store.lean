import FeatureFlags.Document.Parsing
import FeatureFlags.Sync.Payload

/-!
# Store — the table of flags in force

A store holds one table and replaces it as a whole.  Each operation gives the store afterwards and
the one `Status` it announces; a configuration that cannot be read changes nothing but announces
why.  Statuses go through a `StatusChannel`, which holds at most `StatusChannel.capacity` of them
and loses what does not fit.
-/

namespace FeatureFlags

/-- **What a store announces.** -/
inductive Status
  /-- A table was installed; it differs from the one before on these keys. -/
  | ok (changed : KeySet)
  /-- The source is not well, so that the table may be out of date. -/
  | stale (message : String)
  /-- The latest configuration could not be used. -/
  | error (message : String)
  deriving Inhabited

namespace Status

/-- The keys a status names. -/
def changed : Status → KeySet
  | ok changed => changed
  | stale _ => ∅
  | error _ => ∅

def message : Status → Option String
  | ok _ => none
  | stale message => some message
  | error message => some message

end Status

/-- **A table, and whether one was ever installed.** -/
structure Store where
  table : FlagSet
  isReady : Bool
  deriving Inhabited

namespace Store

def empty : Store := ⟨∅, false⟩

instance : EmptyCollection Store := ⟨empty⟩

/-- The table in force; none before the first was installed. -/
def table? (s : Store) : Option FlagSet := if s.isReady then some s.table else none

/-- **Installs a table.** -/
def replace (s : Store) (next : FlagSet) : Store × Status :=
  (⟨next, true⟩, .ok (s.table.changedKeys next))

/-- The table of a configuration and of the annotations delivered with it. -/
def read (parser : Parser) (text : String) (delivered : Metadata) :
    Except DocumentError FlagSet :=
  (Document.parse parser text).map (·.withDeliveryMetadata delivered)

/-- **Installs a configuration**, or says why not. -/
def configure (s : Store) (parser : Parser) (text : String) (delivered : Metadata) :
    Except DocumentError (Store × Status) :=
  (read parser text delivered).map s.replace

/-- **Applies a delivery.** -/
def apply (s : Store) (parser : Parser) : Payload → Store × Status
  | .data text metadata =>
    match s.configure parser text metadata with
    | .ok result => result
    | .error e => (s, .error e.message)
  | .fault message => (s, .stale message)

end Store

/-! ## Announcements -/

/-- **The way from a store to whoever listens.** -/
structure StatusChannel where
  /-- What has not been read, the oldest first. -/
  unread : List Status
  /-- The receiving end was handed out. -/
  isTaken : Bool
  /-- The receiving end is still there. -/
  isOpen : Bool
  deriving Inhabited

namespace StatusChannel

def capacity : Nat := 16

def empty : StatusChannel := ⟨[], false, true⟩

instance : EmptyCollection StatusChannel := ⟨empty⟩

/-- **Sends a status**; it is lost when the channel is full or nobody can ever read it. -/
def send (c : StatusChannel) (status : Status) : StatusChannel :=
  if c.isOpen && c.unread.length < capacity then { c with unread := c.unread ++ [status] } else c

/-- Hands out the receiving end, which there is only one of. -/
def take (c : StatusChannel) : Bool × StatusChannel := (!c.isTaken, { c with isTaken := true })

/-- Somebody holds the receiving end. -/
def isHeld (c : StatusChannel) : Bool := c.isTaken && c.isOpen

/-- Gives up the receiving end, if it was handed out. -/
def close (c : StatusChannel) : StatusChannel :=
  if c.isTaken then { c with unread := [], isOpen := false } else c

/-- Reads all there is. -/
def drain (c : StatusChannel) : List Status × StatusChannel := (c.unread, { c with unread := [] })

end StatusChannel

end FeatureFlags
