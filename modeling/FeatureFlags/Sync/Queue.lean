/-!
# Sync/Queue — the queue between a source and the store

The queue never holds up a sender: it keeps at most `Queue.capacity` items, and an item sent to a
full queue drives out the oldest.  Once every sender is gone the reader gets what is left and then
learns that the queue is closed.
-/

namespace FeatureFlags

/-- The last `n` items of a list. -/
def newest {α : Type} (n : Nat) (items : List α) : List α := items.drop (items.length - n)

theorem length_newest_le {α : Type} (n : Nat) (items : List α) :
    (newest n items).length ≤ n := by
  simp only [newest, List.length_drop]
  omega

/-- The most items a queue holds. -/
def Queue.capacity : Nat := 8

/-- **A queue with its ends.** -/
structure Queue (α : Type) where
  /-- What has not been read, the oldest first. -/
  unread : List α
  senders : Nat
  hasReader : Bool
  length_unread_le : unread.length ≤ Queue.capacity

/-- What a reader gets. -/
inductive Received (α : Type)
  | item (item : α)
  | nothing
  | closed
  deriving DecidableEq, Inhabited, Repr

namespace Queue

variable {α : Type}

/-- A queue with one sender and its reader. -/
def empty : Queue α := ⟨[], 1, true, Nat.zero_le _⟩

instance : EmptyCollection (Queue α) := ⟨empty⟩

instance : Inhabited (Queue α) := ⟨empty⟩

/-- Adds an item, driving out the oldest of a full queue. -/
def push (q : Queue α) (item : α) : Queue α :=
  { q with
    unread := newest capacity (q.unread ++ [item])
    length_unread_le := length_newest_le _ _ }

/-- **Sends an item.**  Without a sender or a reader it is lost. -/
def send (q : Queue α) (item : α) : Queue α :=
  if q.senders = 0 || !q.hasReader then q else q.push item

def sendAll (q : Queue α) (items : List α) : Queue α := items.foldl send q

/-- **Reads the oldest item**, if there is one. -/
def receive (q : Queue α) : Received α × Queue α :=
  match q with
  | ⟨[], 0, _, _⟩ => (.closed, q)
  | ⟨[], _ + 1, _, _⟩ => (.nothing, q)
  | ⟨item :: rest, senders, hasReader, h⟩ =>
    (.item item, ⟨rest, senders, hasReader, Nat.le_of_succ_le h⟩)

/-- Reads all there is. -/
def drain (q : Queue α) : List α × Queue α :=
  (q.unread, { q with unread := [], length_unread_le := Nat.zero_le _ })

/-- The reader has nothing to expect any more. -/
def isClosed (q : Queue α) : Bool := q.unread.isEmpty && q.senders == 0

/-- One more sender, if there is one at all. -/
def addSender (q : Queue α) : Queue α :=
  if q.senders = 0 then q else { q with senders := q.senders + 1 }

def dropSender (q : Queue α) : Queue α := { q with senders := q.senders - 1 }

def dropReader (q : Queue α) : Queue α :=
  { q with unread := [], hasReader := false, length_unread_le := Nat.zero_le _ }

end Queue

end FeatureFlags
