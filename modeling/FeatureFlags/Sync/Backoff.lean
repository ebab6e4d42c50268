/-!
# Sync/Backoff — how long to wait before the next attempt

A backoff is a schedule of delays together with a place in it: `delay` is the delay at that place,
`advance` moves on, `reset` returns to the start.  Schedules compose: one may be bounded, after
which it is exhausted and stands still, and several may follow each other.

`Backoff.reconnect` is the schedule of a stream: one attempt for free, then delays that double up to
a ceiling.  Delays are in milliseconds.
-/

namespace FeatureFlags

/-- **A schedule and a place in it.** -/
inductive Backoff
  /-- The same delay for ever. -/
  | constant (delay : Nat)
  /-- Delays that double from `first` up to `ceiling`. -/
  | doubling (first ceiling current : Nat)
  /-- Another schedule, exhausted after `budget` moves. -/
  | bounded (budget used : Nat) (inner : Backoff)
  /-- Schedules one after the other; the one at `index` is in force. -/
  | sequence (members : List Backoff) (index : Nat)
  deriving Inhabited, Repr

namespace Backoff

/-! ## Reading -/

mutual

/-- **The delay before the next attempt.** -/
def delay : Backoff → Nat
  | constant d => d
  | doubling _ _ current => current
  | bounded _ _ inner => inner.delay
  | sequence members index => delayAt members index

/-- The delay of a member, zero where there is none. -/
def delayAt : List Backoff → Nat → Nat
  | [], _ => 0
  | b :: _, 0 => b.delay
  | _ :: rest, i + 1 => delayAt rest i

end

mutual

/-- **The schedule has come to its end.**  A sequence ends with its last member. -/
def isExhausted : Backoff → Bool
  | constant _ => false
  | doubling _ _ _ => false
  | bounded budget used _ => decide (budget ≤ used)
  | sequence members index => isLastExhausted members index

def isLastExhausted : List Backoff → Nat → Bool
  | [], _ => true
  | b :: rest, 0 => rest.isEmpty && b.isExhausted
  | _ :: rest, i + 1 => isLastExhausted rest i

end

/-- The place of the member in force. -/
def index : Backoff → Nat
  | sequence _ i => i
  | _ => 0

/-! ## Moving -/

/-- The number of exhausted members at the front, the last member not counted. -/
def passed : List Backoff → Nat
  | [] => 0
  | b :: rest => if !rest.isEmpty && b.isExhausted then passed rest + 1 else 0

/-- A sequence whose members before `index` are done with. -/
def sequenceFrom (members : List Backoff) (index : Nat) : Backoff :=
  sequence members (index + passed (members.drop index))

mutual

/-- **Moves on.**  An exhausted bounded schedule stands still. -/
def advance : Backoff → Backoff
  | constant d => constant d
  | doubling first ceiling current => doubling first ceiling (min (2 * current) ceiling)
  | bounded budget used inner =>
    if budget ≤ used then bounded budget used inner else bounded budget (used + 1) inner.advance
  | sequence members index => sequenceFrom (advanceAt members index) index

def advanceAt : List Backoff → Nat → List Backoff
  | [], _ => []
  | b :: rest, 0 => b.advance :: rest
  | b :: rest, i + 1 => b :: advanceAt rest i

end

mutual

/-- **Returns to the start.** -/
def reset : Backoff → Backoff
  | constant d => constant d
  | doubling first ceiling _ => doubling first ceiling first
  | bounded budget _ inner => bounded budget 0 inner.reset
  | sequence members _ => sequenceFrom (resetAll members) 0

def resetAll : List Backoff → List Backoff
  | [] => []
  | b :: rest => b.reset :: resetAll rest

end

/-! ## Schedules at their start -/

/-- Doubling delays; the first one is not above the ceiling either. -/
def exponential (first ceiling : Nat) : Backoff :=
  doubling (min first ceiling) ceiling (min first ceiling)

/-- The ceiling of doubling delays where none is given. -/
def defaultCeiling : Nat := 120000

/-- A schedule that ends after some moves. -/
def limited (budget : Nat) (inner : Backoff) : Backoff := bounded budget 0 inner

/-- Schedules one after the other; one without a budget is passed over at once. -/
def chain (members : List Backoff) : Backoff := sequenceFrom members 0

/-- **The schedule of a stream**: one attempt for free, then doubling delays. -/
def reconnect (first ceiling : Nat) : Backoff :=
  chain [limited 1 (constant 0), exponential first ceiling]

/-! ## Waiting -/

/-- A random part of a wait, at most `greatest`. -/
def jitter (greatest draw : Nat) : Nat := draw % (greatest + 1)

theorem jitter_le (greatest draw : Nat) : jitter greatest draw ≤ greatest :=
  Nat.le_of_lt_succ (Nat.mod_lt _ (Nat.succ_pos greatest))

/-- **The next wait**, with a random part, and the schedule after it. -/
def next (b : Backoff) (greatestJitter draw : Nat) : Nat × Backoff :=
  (b.delay + jitter greatestJitter draw, b.advance)

/-- How a wait ended. -/
structure Wait where
  isCompleted : Bool
  elapsed : Nat
  deriving DecidableEq, Inhabited, Repr

/-- A wait that may be called off some time after its start. -/
def wait (length : Nat) (calledOff : Option Nat) : Wait :=
  match calledOff with
  | some t => if t < length then ⟨false, t⟩ else ⟨true, length⟩
  | none => ⟨true, length⟩

end Backoff

end FeatureFlags
