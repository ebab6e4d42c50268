import FeatureFlags.Metadata

/-!
# Sync/Payload — what a source hands to the store
-/

namespace FeatureFlags

/-- **A delivery of a source.** -/
inductive Payload
  /-- A whole configuration and the annotations that came beside it. -/
  | data (text : String) (metadata : Metadata)
  /-- The source is not well. -/
  | fault (message : String)
  deriving Inhabited

end FeatureFlags
