import FeatureFlags.Sync.Stream

/-!
# Sync/Relay — the client of a stream turn by turn

The client of the sync service works in two tasks.  A reader takes the items from the stream and puts
them into a queue of `Relay.capacity` places, waiting when it is full; the client proper takes them out
and deals with them.  `StreamClient.turn` is one move of either, and a run is any row of turns: a turn
that cannot be taken changes nothing.  A client that is stopped, which can happen before any turn, does
nothing more.

`Stream.run` tells what comes of it, with times.
-/

namespace FeatureFlags

/-! ## Reader and queue -/

/-- **What the reader of a stream puts into the queue.** -/
inductive StreamEvent
  | configuration (text : String) (context : Option Metadata)
  | keepAlive
  /-- The last event of a stream. -/
  | ended (how : AttemptEnd)
  deriving Inhabited

namespace StreamEvent

def ofItem : StreamItem → StreamEvent
  | .configuration text context => configuration text context
  | .keepAlive => keepAlive
  | .failure code message => ended (.failed (code.name ++ ": " ++ message))

def isEnd : StreamEvent → Bool
  | ended _ => true
  | _ => false

end StreamEvent

/-- **A stream on its way to the client.** -/
structure Relay where
  /-- What the stream has still to bring. -/
  coming : List StreamItem
  /-- The stream ends after that. -/
  ends : Bool
  /-- The reader has not come to the end. -/
  isReading : Bool
  /-- What the reader holds until there is a place for it. -/
  held : Option StreamEvent
  /-- What the client has not taken, the oldest first. -/
  queue : List StreamEvent
  deriving Inhabited

namespace Relay

def capacity : Nat := 5

/-- A stream of which nothing was read. -/
def ofStream (items : List TimedItem) (ending : Option Nat) : Relay :=
  ⟨items.map (·.item), ending.isSome, true, none, []⟩

/-- **The reader takes what comes next**, unless it still holds something. -/
def read (r : Relay) : Relay :=
  if r.isReading && r.held.isNone then
    match r.coming with
    | item :: rest =>
      let event := StreamEvent.ofItem item
      { r with coming := rest, isReading := !event.isEnd, held := some event }
    | [] =>
      if r.ends then { r with isReading := false, held := some (.ended .completed) } else r
  else r

/-- **The reader puts into the queue what it holds**, if there is a place. -/
def enqueue (r : Relay) : Relay :=
  match r.held with
  | some event =>
    if r.queue.length < capacity then { r with held := none, queue := r.queue ++ [event] } else r
  | none => r

/-- Nothing more will be put into the queue. -/
def isClosed (r : Relay) : Bool := !r.isReading && r.held.isNone

/-- **The client takes the oldest event**; an empty queue that is closed counts as an end. -/
def take? (r : Relay) : Option (StreamEvent × Relay) :=
  match r.queue with
  | event :: rest => some (event, { r with queue := rest })
  | [] => if r.isClosed then some (.ended .completed, r) else none

end Relay

/-! ## The client -/

/-- **What a client is about.** -/
inductive ClientPhase
  | calling
  /-- It receives a stream, with the annotations that were called for. -/
  | receiving (called : Metadata) (relay : Relay)
  /-- It waits before the next call. -/
  | waiting
  | stopped
  deriving Inhabited

/-- **A client of the sync service**, between two turns. -/
structure StreamClient where
  phase : ClientPhase
  /-- What will become of the calls to come. -/
  attempts : List Attempt
  /-- The number of the next call. -/
  number : Nat
  backoff : Backoff
  sent : List Payload
  deriving Inhabited

/-- **Whose turn it is.** -/
inductive ClientTurn
  | read
  | enqueue
  /-- The client goes on. -/
  | proceed
  | stop
  deriving DecidableEq, Inhabited, Repr

namespace StreamClient

/-- A client before its first call. -/
def start (s : Settings) (service : Service) : StreamClient :=
  ⟨.calling, service.attempts, 0, Backoff.reconnect s.retryBackoff s.retryBackoffMax, []⟩

def send (c : StreamClient) (payloads : List Payload) : StreamClient :=
  { c with sent := c.sent ++ payloads }

/-- The end of an attempt: it is reported, unless silent, and the wait begins. -/
def conclude (c : StreamClient) (ended : AttemptEnd) : StreamClient :=
  { c.send (if Stream.isSilent c.backoff then [] else [.fault ended.message]) with
    phase := .waiting, backoff := c.backoff.advance }

/-- **A call.**  One beyond the script gets a stream that brings nothing. -/
def call (metadata : Nat → Metadata) (c : StreamClient) : StreamClient :=
  let called := { c with attempts := c.attempts.tail, number := c.number + 1 }
  match c.attempts with
  | [] => { called with phase := .receiving (metadata c.number) (.ofStream [] none) }
  | .refused failure :: _ => called.conclude (.failed failure.message)
  | .opened items ending :: _ =>
    { called with phase := .receiving (metadata c.number) (.ofStream items ending) }

/-- **Deals with an event**: a configuration is handed on and sets the backoff back to its start. -/
def receive (c : StreamClient) (called : Metadata) (relay : Relay) : StreamEvent → StreamClient
  | .configuration text context =>
    { c.send [.data text (context.getD called)] with
      phase := .receiving called relay, backoff := c.backoff.reset }
  | .keepAlive => { c with phase := .receiving called relay }
  | .ended how => c.conclude how

/-- The client goes on, if it can. -/
def proceed (metadata : Nat → Metadata) (c : StreamClient) : StreamClient :=
  match c.phase with
  | .calling => c.call metadata
  | .receiving called relay =>
    match relay.take? with
    | some (event, relay) => c.receive called relay event
    | none => c
  | .waiting => { c with phase := .calling }
  | .stopped => c

/-- A move of the reader. -/
def onRelay (move : Relay → Relay) (c : StreamClient) : StreamClient :=
  match c.phase with
  | .receiving called relay => { c with phase := .receiving called (move relay) }
  | _ => c

/-- **One turn.** -/
def turn (metadata : Nat → Metadata) (c : StreamClient) : ClientTurn → StreamClient
  | .read => c.onRelay Relay.read
  | .enqueue => c.onRelay Relay.enqueue
  | .proceed => c.proceed metadata
  | .stop => { c with phase := .stopped }

/-- **A row of turns**, from the start. -/
def run (s : Settings) (service : Service) (turns : List ClientTurn) : StreamClient :=
  turns.foldl (turn (Stream.calledMetadata s service)) (start s service)

end StreamClient

end FeatureFlags
