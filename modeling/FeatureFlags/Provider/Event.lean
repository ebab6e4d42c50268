import FeatureFlags.Store

/-!
# Provider/Event — what a listener is told

Events follow from the announcements of the store.  `Event.ofStatus` keeps one bit between
announcements: whether the table was in order at the last one.
-/

namespace FeatureFlags

/-- **What a listener is told.** -/
inductive Event
  /-- A table was installed after the start, or after a time of trouble. -/
  | ready
  /-- The table changed on these keys. -/
  | changed (keys : List String)
  | stale (message : String)
  | error (message : String)
  deriving DecidableEq, Inhabited, Repr

namespace Event

/-- The events of an installed table. -/
def ofChange (isHealthy : Bool) (keys : List String) : List Event :=
  (if isHealthy then [] else [ready]) ++ if keys.isEmpty then [] else [changed keys]

/-- **The events of an announcement**, and whether the table is in order after it. -/
def ofStatus (isHealthy : Bool) : Status → List Event × Bool
  | .ok keys => (ofChange isHealthy keys.keys, true)
  | .stale message => ([stale message], false)
  | .error message => ([error message], false)

/-- The events of a row of announcements. -/
def ofStatuses (isHealthy : Bool) : List Status → List Event × Bool
  | [] => ([], isHealthy)
  | status :: rest =>
    let (events, isHealthy) := ofStatus isHealthy status
    let (more, isHealthy) := ofStatuses isHealthy rest
    (events ++ more, isHealthy)

end Event

end FeatureFlags
