import FeatureFlags.Flag

/-!
# FlagSet — the table of flags of one configuration

A flag set is never altered: a store replaces one by another.  `changedKeys` says which keys two
sets differ on, by presence or by definition.
-/

namespace FeatureFlags

/-- **A table of flags**, with annotations of the table as a whole. -/
structure FlagSet where
  flags : KeyMap Flag
  metadata : Metadata
  deriving Inhabited

/-- A set of keys, in their order. -/
abbrev KeySet := KeyMap Unit

namespace FlagSet

def empty : FlagSet := ⟨∅, ∅⟩

instance : EmptyCollection FlagSet := ⟨empty⟩

def get? (s : FlagSet) (key : String) : Option Flag := s.flags.get? key

def size (s : FlagSet) : Nat := s.flags.size

def isEmpty (s : FlagSet) : Bool := s.flags.isEmpty

/-- **The keys on which two tables differ**: those of `before` that are absent from `after` or
defined otherwise there, and those that only `after` has. -/
def changedKeys (before after : FlagSet) : KeySet :=
  let altered := before.flags.filter fun key flag =>
    match after.get? key with
    | some other => !(other == flag)
    | none => true
  let added := after.flags.filter fun key _ => !before.flags.contains key
  let keysOf (flags : KeyMap Flag) : KeySet := flags.filterMap fun _ _ => some ()
  (keysOf altered).overlay (keysOf added)

/-- Puts annotations that came beside the document under its own: the document's stand. -/
def withDeliveryMetadata (s : FlagSet) (delivered : Metadata) : FlagSet :=
  { s with metadata := delivered.overlay s.metadata }

end FlagSet

end FeatureFlags
