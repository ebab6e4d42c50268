import FeatureFlags.Sync.Queue

/-!
# Sync/Reception — what a reader of a queue gets, and when

Items are sent at given times.  A reader that starts late finds the newest of the backlog; from then
on it gets whatever is sent as it comes.  What is sent at one instant is all in the queue before the
reader comes to it, so that of a burst it gets the newest.
-/

namespace FeatureFlags.Reception

variable {α : Type}

/-- The items that were sent before the reader started. -/
def backlog (start : Nat) (sent : List (Nat × α)) : List (Nat × α) :=
  (newest Queue.capacity (sent.filter (·.1 < start))).map fun (_, item) => (start, item)

/-- The items that come while the reader reads. -/
def live (start stop : Nat) (sent : List (Nat × α)) : List (Nat × α) :=
  let coming := sent.filter fun (time, _) => start ≤ time && time < stop
  (coming.splitBy fun a b => a.1 == b.1).flatMap (newest Queue.capacity)

/-- **What a reader gets between `start` and `stop`**, with the times at which it gets it. -/
def received (start stop : Nat) (sent : List (Nat × α)) : List (Nat × α) :=
  backlog start sent ++ live start stop sent

end FeatureFlags.Reception
