import FeatureFlags.Provider.Event

/-!
# Provider/Herald — passing on what a store announces

A store announces each of its operations on its channel, and a herald takes the announcements from there,
one at a time, and tells the listener.  `Herald.turn` is one move of either, and a run is any row of
turns: the store may do many things before the herald gets to the first.  Once the herald ceases the
channel is closed, and the store announces to nobody.

A `Resolver` holds such a herald, who always passes on all there is.
-/

namespace FeatureFlags

namespace Store

/-- **An operation of a store.** -/
inductive Action
  | apply (payload : Payload)
  | replace (next : FlagSet)
  | markStale (message : String)
  | markError (message : String)
  deriving Inhabited

/-- **Does an operation**: the store afterwards, and what it announces. -/
def act (parser : Parser) (s : Store) : Action → Store × Status
  | .apply payload => s.apply parser payload
  | .replace next => s.replace next
  | .markStale message => (s, .stale message)
  | .markError message => (s, .error message)

end Store

/-- **A store, the channel it announces on, and what the listener was told.** -/
structure Herald where
  store : Store
  channel : StatusChannel
  /-- The table was in order at the last announcement that was passed on. -/
  isHealthy : Bool
  /-- All that the listener was told. -/
  heard : List Event
  deriving Inhabited

namespace Herald

/-- What may happen. -/
inductive Turn
  | action (action : Store.Action)
  /-- The oldest announcement is passed on, if there is one. -/
  | forward
  /-- The herald passes nothing on any more. -/
  | cease
  deriving Inhabited

def fresh : Herald := ⟨∅, ∅, false, []⟩

/-- **The store does something** and announces it. -/
def perform (parser : Parser) (h : Herald) (action : Store.Action) : Herald :=
  let result := h.store.act parser action
  { h with store := result.1, channel := h.channel.send result.2 }

/-- **Passes on the oldest announcement.** -/
def forward (h : Herald) : Herald :=
  match h.channel.unread with
  | [] => h
  | status :: unread =>
    let (events, isHealthy) := Event.ofStatus h.isHealthy status
    { h with channel := { h.channel with unread }, isHealthy, heard := h.heard ++ events }

/-- The herald is gone, and the receiving end of the channel, which it held. -/
def cease (h : Herald) : Herald := { h with channel := h.channel.take.2.close }

def turn (parser : Parser) (h : Herald) : Turn → Herald
  | .action action => h.perform parser action
  | .forward => h.forward
  | .cease => h.cease

/-- **A row of turns.** -/
def run (parser : Parser) (h : Herald) (turns : List Turn) : Herald := turns.foldl (turn parser) h

end Herald

end FeatureFlags
