import FeatureFlags.Provider.Herald
import FeatureFlags.Provider.Resolver
import FeatureFlags.Sync.Queue

/-!
# Provider/Lifecycle — the parts of a resolver, from its making to its end

A resolver that was started has three parts at work: the **worker** of its connector, which sends
deliveries to a queue; the **consumer**, which takes them from there to the store; and the **forwarder**,
which passes on what the store announces.  They are started by `init`, and each ends in its own time once
the resolver is cancelled.  A call of `shutdown` waits for each of them in turn, and stops it if it takes
too long.  The worker it waits for even then; the consumer and the forwarder it only tells to stop, which
one that waits does at once, but one that has something in hand only when it is done with that.

`Lifecycle.turn` is one move of a part or of whoever calls.  Nothing interrupts a turn; between two turns
of one part the others may take any number.  The calls of `shutdown` come one after another, but anything
may come between their steps.  A `Resolver` is such a lifecycle where all parts are quick.
-/

namespace FeatureFlags

/-- **What the consumer is at.** -/
inductive Consumer
  | gone
  /-- It waits for a delivery. -/
  | waiting
  /-- It has taken a delivery, which is not in the store yet. -/
  | applying (payload : Payload)
  deriving Inhabited

/-- **What the forwarder is at.** -/
inductive Forwarder
  | gone
  /-- It waits for an announcement. -/
  | waiting
  /-- It has taken an announcement, and has still to tell these events. -/
  | telling (events : List Event)
  deriving Inhabited

/-- **How far the call of `shutdown` at hand is.** -/
inductive Shutdown
  /-- There is none. -/
  | idle
  /-- The resolver is cancelled, and the worker has still to stop. -/
  | cancelled
  /-- The worker has stopped, and the consumer has still to end. -/
  | disconnected
  /-- The time of the consumer is over, and the forwarder has still to end. -/
  | draining
  deriving DecidableEq, Inhabited, Repr

/-- **The parts of a resolver**, and what they share. -/
structure Lifecycle where
  isCancelled : Bool
  /-- The connector was started, which it can be only once. -/
  wasStarted : Bool
  hasWorker : Bool
  /-- What the worker has sent and the consumer has not taken. -/
  queue : Queue Payload
  consumer : Consumer
  forwarder : Forwarder
  /-- A call of `shutdown` has still to see to the consumer and the forwarder. -/
  hasTasks : Bool
  herald : Herald
  /-- All that the consumer has taken to the store. -/
  taken : List Payload
  shutdown : Shutdown
  /-- A call of `shutdown` has returned. -/
  hasReturned : Bool
  deriving Inhabited

namespace Lifecycle

/-- What may happen. -/
inductive Turn
  /-- A call of `init`, up to where it waits for a table. -/
  | init
  /-- The call of `shutdown` at hand goes on, or one begins. -/
  | shutdown
  | send (payload : Payload)
  /-- The consumer takes a delivery, or finds that the queue is closed. -/
  | take
  /-- What the consumer has taken comes to the store. -/
  | apply
  /-- The forwarder takes the oldest announcement, if there is one. -/
  | hear
  /-- The forwarder tells the next event, or is done with its announcement. -/
  | tell
  /-- The consumer finds that the resolver is cancelled. -/
  | endConsumer
  /-- The forwarder finds that the resolver is cancelled. -/
  | endForwarder
  deriving Inhabited

def fresh : Lifecycle :=
  ⟨false, false, false, ∅, .gone, .gone, false, Herald.fresh, [], .idle, false⟩

/-! ## Calls -/

/-- **Why `init` would fail now**; it starts the connector if it would not. -/
def refusal? (l : Lifecycle) : Option Failure :=
  if l.isCancelled then some .shutDown
  else if l.wasStarted then some .alreadyStarted
  else none

/-- Starts the connector and the parts; a forwarder only if nobody has the announcements. -/
def start (l : Lifecycle) : Lifecycle :=
  let (isFree, channel) := l.herald.channel.take
  { l with
    wasStarted := true
    hasWorker := true
    queue := ∅
    consumer := .waiting
    forwarder := if isFree then .waiting else .gone
    hasTasks := true
    herald := { l.herald with channel } }

def init (l : Lifecycle) : Lifecycle := if l.refusal?.isSome then l else l.start

/-! ## Parts -/

def send (l : Lifecycle) (payload : Payload) : Lifecycle :=
  if l.hasWorker then { l with queue := l.queue.send payload } else l

/-- The worker is gone, and its end of the queue. -/
def stopWorker (l : Lifecycle) : Lifecycle :=
  if l.hasWorker then { l with hasWorker := false, queue := l.queue.dropSender } else l

/-- **A consumer that waits is stopped**, and its end of the queue is gone; one that has a delivery in hand
goes on. -/
def stopConsumer (l : Lifecycle) : Lifecycle :=
  match l.consumer with
  | .waiting => { l with consumer := .gone, queue := l.queue.dropReader }
  | _ => l

/-- **A forwarder that waits is stopped**, and its end of the channel is gone; one that has events to tell
goes on. -/
def stopForwarder (l : Lifecycle) : Lifecycle :=
  match l.forwarder with
  | .waiting =>
    { l with forwarder := .gone, herald := { l.herald with channel := l.herald.channel.close } }
  | _ => l

/-- **The consumer takes a delivery** in hand. -/
def take (l : Lifecycle) : Lifecycle :=
  match l.consumer with
  | .waiting =>
    match l.queue.receive with
    | (.item payload, queue) => { l with queue, consumer := .applying payload }
    | (.nothing, _) => l
    | (.closed, _) => l.stopConsumer
  | _ => l

/-- **The delivery in hand** comes to the store. -/
def apply (parser : Parser) (l : Lifecycle) : Lifecycle :=
  match l.consumer with
  | .applying payload =>
    { l with
      consumer := .waiting
      herald := l.herald.perform parser (.apply payload)
      taken := l.taken ++ [payload] }
  | _ => l

/-- **The forwarder takes an announcement** in hand. -/
def hear (l : Lifecycle) : Lifecycle :=
  match l.forwarder, l.herald.channel.unread with
  | .waiting, status :: unread =>
    let (events, isHealthy) := Event.ofStatus l.herald.isHealthy status
    { l with
      forwarder := .telling events
      herald := { l.herald with channel := { l.herald.channel with unread }, isHealthy } }
  | _, _ => l

/-- **The next event is told.** -/
def tell (l : Lifecycle) : Lifecycle :=
  match l.forwarder with
  | .telling [] => { l with forwarder := .waiting }
  | .telling (event :: events) =>
    { l with
      forwarder := .telling events
      herald := { l.herald with heard := l.herald.heard ++ [event] } }
  | _ => l

/-- **One step of a call of `shutdown`.**  Only the first call sees to the consumer and the forwarder, and
it does not wait for them once their time is over. -/
def shutdownStep (l : Lifecycle) : Lifecycle :=
  match l.shutdown with
  | .idle => { l with isCancelled := true, shutdown := .cancelled }
  | .cancelled => { l.stopWorker with shutdown := .disconnected }
  | .disconnected =>
    if l.hasTasks then { l.stopConsumer with shutdown := .draining, hasTasks := false }
    else { l with shutdown := .idle, hasReturned := true }
  | .draining => { l.stopForwarder with shutdown := .idle, hasReturned := true }

/-! ## Runs -/

def turn (parser : Parser) (l : Lifecycle) : Turn → Lifecycle
  | .init => l.init
  | .shutdown => l.shutdownStep
  | .send payload => l.send payload
  | .take => l.take
  | .apply => l.apply parser
  | .hear => l.hear
  | .tell => l.tell
  | .endConsumer => if l.isCancelled then l.stopConsumer else l
  | .endForwarder => if l.isCancelled then l.stopForwarder else l

/-- **A row of turns.** -/
def run (parser : Parser) (l : Lifecycle) (turns : List Turn) : Lifecycle :=
  turns.foldl (turn parser) l

end Lifecycle

/-! ## Calls of a resolver -/

namespace Resolver

/-- **What a resolver goes through**; time passes, and a program may try to push. -/
inductive Call
  | init
  | shutdown
  | advance (time : Nat)
  | push (payload : Payload)
  deriving Inhabited

def call (r : Resolver) : Call → Resolver
  | .init => r.init.2
  | .shutdown => r.shutdown
  | .advance time => r.advance time
  | .push payload => (r.push payload).2

/-- **A row of calls.** -/
def calls (r : Resolver) (row : List Call) : Resolver := row.foldl call r

end Resolver

end FeatureFlags
