import FeatureFlags.Sync.Queue

/-!
# Sync/Channel — the numbered channel under a queue

A channel numbers what is sent and retains the newest `Queue.capacity` values.  Its reader asks for one
number after the other.  When the value it asks for is gone it is told that it lags, and goes on with the
oldest value that is retained.

`Exchange.turn` is one move of a sender or of the reader, which asks again whenever it is told that it
lags, and a run is any row of turns.  What such a reader sees of a channel is a `Queue`:
`Channel.toQueue`.
-/

namespace FeatureFlags

variable {α : Type}

theorem length_newest (n : Nat) (items : List α) :
    (newest n items).length = min items.length n := by
  simp only [newest, List.length_drop]
  omega

/-- **What a reader is told.** -/
inductive Told (α : Type)
  | value (value : α)
  /-- So many values are gone that it did not get. -/
  | lagged (skipped : Nat)
  | nothing
  /-- There is nothing, and nothing will come. -/
  | closed
  deriving DecidableEq, Inhabited, Repr

/-- What a reader has received when it was told this; a reader that lags asks again. -/
def Told.received? : Told α → Option (Received α)
  | .value v => some (.item v)
  | .lagged _ => none
  | .nothing => some .nothing
  | .closed => some .closed

/-- **A channel with its reader.** -/
structure Channel (α : Type) where
  /-- How many values were sent; they are numbered from zero. -/
  count : Nat
  /-- The newest of them, the oldest first. -/
  retained : List α
  /-- The number that the reader asks for. -/
  next : Nat
  senders : Nat
  length_retained : retained.length = min count Queue.capacity
  next_le_count : next ≤ count

namespace Channel

/-- A channel with one sender and its reader. -/
def empty : Channel α := ⟨0, [], 0, 1, rfl, Nat.le_refl _⟩

instance : EmptyCollection (Channel α) := ⟨empty⟩

instance : Inhabited (Channel α) := ⟨empty⟩

/-- The number of the oldest value that is retained. -/
def oldest (c : Channel α) : Nat := c.count - c.retained.length

theorem oldest_add_length (c : Channel α) : c.oldest + c.retained.length = c.count := by
  have := c.length_retained
  rw [oldest]
  omega

/-- The value that the reader asks for is gone. -/
def IsLagging (c : Channel α) : Prop := c.next < c.oldest

instance (c : Channel α) : Decidable c.IsLagging := inferInstanceAs (Decidable (_ < _))

/-- **Sends a value.** -/
def send (c : Channel α) (value : α) : Channel α where
  count := c.count + 1
  retained := newest Queue.capacity (c.retained ++ [value])
  next := c.next
  senders := c.senders
  length_retained := by
    have := c.length_retained
    rw [length_newest, List.length_append, List.length_singleton]
    omega
  next_le_count := Nat.le_succ_of_le c.next_le_count

/-- **The reader asks**, and is told. -/
def ask (c : Channel α) : Told α × Channel α :=
  if hlag : c.IsLagging then
    (.lagged (c.oldest - c.next), { c with next := c.oldest, next_le_count := Nat.sub_le _ _ })
  else if hnew : c.next < c.count then
    have hretained : c.next - c.oldest < c.retained.length := by
      have := c.oldest_add_length
      rw [IsLagging] at hlag
      omega
    (.value (c.retained.get ⟨c.next - c.oldest, hretained⟩),
      { c with next := c.next + 1, next_le_count := hnew })
  else (if c.senders = 0 then .closed else .nothing, c)

/-- One more sender, if there is one at all. -/
def addSender (c : Channel α) : Channel α :=
  if c.senders = 0 then c else { c with senders := c.senders + 1 }

def dropSender (c : Channel α) : Channel α := { c with senders := c.senders - 1 }

/-- **The queue that a reader has** which asks again whenever it lags. -/
def toQueue (c : Channel α) : Queue α where
  unread := c.retained.drop (c.next - c.oldest)
  senders := c.senders
  hasReader := true
  length_unread_le := by
    have := c.length_retained
    rw [List.length_drop]
    omega

end Channel

/-! ## Turns -/

/-- **Whose turn it is.** -/
inductive ChannelTurn (α : Type)
  | send (value : α)
  | addSender
  | dropSender
  /-- The reader, which wants the next value, asks. -/
  | ask
  deriving DecidableEq, Inhabited, Repr

/-- **A channel and what went through it.** -/
structure Exchange (α : Type) where
  channel : Channel α
  sent : List α
  /-- What the reader got, each value with its number. -/
  received : List (Nat × α)
  /-- The reader was told that the channel is closed. -/
  isEnded : Bool
  deriving Inhabited

namespace Exchange

def start : Exchange α := ⟨∅, [], [], false⟩

/-- What the reader makes of what it is told; told that it lags, it goes on asking. -/
def hear (x : Exchange α) : Told α × Channel α → Exchange α
  | (.value value, channel) =>
    { x with channel, received := x.received ++ [(x.channel.next, value)] }
  | (.lagged _, channel) => { x with channel }
  | (.nothing, channel) => { x with channel }
  | (.closed, channel) => { x with channel, isEnded := true }

/-- **One turn.**  Without a sender nothing can be sent. -/
def turn (x : Exchange α) : ChannelTurn α → Exchange α
  | .send value =>
    if x.channel.senders = 0 then x
    else { x with channel := x.channel.send value, sent := x.sent ++ [value] }
  | .addSender => { x with channel := x.channel.addSender }
  | .dropSender => { x with channel := x.channel.dropSender }
  | .ask => x.hear x.channel.ask

/-- **A row of turns**, from the start. -/
def run (turns : List (ChannelTurn α)) : Exchange α := turns.foldl turn start

end Exchange

end FeatureFlags
