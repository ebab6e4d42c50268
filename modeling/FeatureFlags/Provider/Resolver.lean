import FeatureFlags.Provider.Answer
import FeatureFlags.Provider.Event
import FeatureFlags.Provider.Source

/-!
# Provider/Resolver — a resolver from its making to its end

A resolver joins a source, a store and a listener.  Each operation takes the resolver to the state
that it is in when everything that can happen at that time has happened; time itself passes only in
`init`, up to the deadline, and in `advance`.

The listener is told from the first `init` on, also what the store announced before.  After
`shutdown` nothing is delivered and nobody is told anything, but requests are still answered from
the last table.
-/

namespace FeatureFlags

/-- **A resolver.** -/
structure Resolver where
  settings : Settings
  parser : Parser
  answering : Answering
  source : Source
  /-- The file that a file source watches. -/
  file : Option DiskFile
  /-- The random part of each wait of a stream, by the number of the attempt. -/
  draw : Nat → Nat
  clock : Nat
  feed : Feed
  wasStarted : Bool
  isShutDown : Bool
  store : Store
  channel : StatusChannel
  /-- The table was in order at the last announcement that was passed on. -/
  isHealthy : Bool
  /-- All that the listener was told. -/
  heard : List Event

namespace Resolver

/-- **Makes a resolver**, if the settings can be used. -/
def make (settings : Settings) (parser : Parser) (answering : Answering)
    (source : Except Failure Source) (file : Option DiskFile) (draw : Nat → Nat) :
    Except Failure Resolver :=
  match settings.fault? with
  | some fault => .error (.unusable fault)
  | none => source.map fun source =>
    ⟨settings, parser, answering, source, file, draw, 0, .idle, false, false, ∅, ∅, false, []⟩

/-! ## Deliveries -/

/-- **Tells the listener** what the store announced, if anybody passes it on. -/
def tell (r : Resolver) : Resolver :=
  if r.channel.isHeld then
    let (statuses, channel) := r.channel.drain
    let (events, isHealthy) := Event.ofStatuses r.isHealthy statuses
    { r with channel, isHealthy, heard := r.heard ++ events }
  else r

/-- A change of the store, with its announcement. -/
def changeStore (r : Resolver) (result : Store × Status) : Resolver :=
  { r with store := result.1, channel := r.channel.send result.2 }

/-- **Applies a delivery.** -/
def apply (r : Resolver) (payload : Payload) : Resolver :=
  r.changeStore (r.store.apply r.parser payload)

/-- Applies a delivery and tells about it. -/
def deliver (r : Resolver) (payload : Payload) : Resolver := (r.apply payload).tell

/-- **Applies what comes** up to a time, at most `bound` deliveries. -/
def deliverUntil (time : Nat) : (bound : Nat) → Resolver → Resolver
  | 0, r => r
  | bound + 1, r =>
    match r.feed.next? r.file with
    | none => r
    | some (due, payload, feed) =>
      if due ≤ time then
        deliverUntil time bound (payload.toList.foldl deliver { r with feed })
      else r

/-- **Applies what comes** before a limit, until there is a table, at most `bound` deliveries. -/
def deliverUntilReady (limit : Nat) : (bound : Nat) → Resolver → Resolver
  | 0, r => r
  | bound + 1, r =>
    if r.store.isReady then r
    else
      match r.feed.next? r.file with
      | none => r
      | some (due, payload, feed) =>
        if due < limit then
          deliverUntilReady limit bound
            (payload.toList.foldl deliver { r with feed, clock := max r.clock due })
        else r

/-- Lets everything happen up to a time. -/
def moveTo (r : Resolver) (time : Nat) : Resolver :=
  deliverUntil time (r.feed.bound time) { r with clock := time }

/-! ## Operations -/

/-- The source can be started: only a program that pushes can start over. -/
def canStart (r : Resolver) : Bool :=
  match r.source with
  | .pushed _ => true
  | _ => !r.wasStarted

/-- Starts the source and begins to tell the listener. -/
def begin (r : Resolver) : Resolver :=
  let (atOnce, feed) := Feed.start r.draw r.clock r.source
  let r := atOnce.foldl apply { r with feed, wasStarted := true }
  { r with channel := r.channel.take.2 }.tell

/-- **Waits for a table** for as long as the settings say. -/
def awaitTable (r : Resolver) : Except Failure Unit × Resolver :=
  let limit := r.clock + r.settings.deadline
  let r := deliverUntilReady limit (r.feed.bound limit) r
  if r.store.isReady then (.ok (), r.moveTo r.clock)
  else (.error (.noConfiguration r.settings.deadline), r.moveTo limit)

/-- **Starts the source and waits for the first table.**  When none comes in time the source runs on
all the same. -/
def init (r : Resolver) : Except Failure Unit × Resolver :=
  if r.isShutDown then (.error .shutDown, r)
  else if !r.canStart then (.error .alreadyStarted, r)
  else r.begin.awaitTable

/-- **Pushes a delivery**, which only a feed that is open to it takes. -/
def push (r : Resolver) (payload : Payload) : Bool × Resolver :=
  match r.feed with
  | .accepting => (true, r.deliver payload)
  | _ => (false, r)

/-- **Installs a configuration** past the source. -/
def configure (r : Resolver) (text : String) (delivered : Metadata) :
    Except DocumentError KeySet × Resolver :=
  match r.store.configure r.parser text delivered with
  | .error e => (.error e, r)
  | .ok result => (.ok result.2.changed, (r.changeStore result).tell)

/-- **Lets time pass.** -/
def advance (r : Resolver) (time : Nat) : Resolver := r.moveTo (r.clock + time)

/-- **Shuts down.** -/
def shutdown (r : Resolver) : Resolver :=
  { r with isShutDown := true, feed := .idle, channel := r.channel.close }

/-- **Answers a request**, unless the rule breaks off. -/
def resolve (r : Resolver) (key : String) (type : FlagType) (default : FlagValue)
    (context : Context) : Except Overflow (Resolution FlagValue) :=
  r.answering.resolve r.store key type default context

end Resolver

end FeatureFlags
