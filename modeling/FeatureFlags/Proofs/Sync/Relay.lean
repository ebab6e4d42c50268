import FeatureFlags.Sync.Relay
import Mathlib.Data.List.Basic

/-!
# Proofs/Sync/Relay — what the client has still to take

`Relay.events` is what the client has still to take from a stream: what is in the queue, what the reader
holds and what it will read.  Moves of the reader keep it (`events_read`, `events_enqueue`), the client
takes it from the front (`Sound.take?_cases`), and every move is one of a finite number
(`Relay.weight`).
-/

namespace FeatureFlags

namespace Relay

/-- What the reader will put into the queue: one event for each item, up to the end. -/
def upcoming (ends : Bool) : List StreamItem → List StreamEvent
  | [] => if ends then [.ended .completed] else []
  | item :: rest =>
    .ofItem item :: if (StreamEvent.ofItem item).isEnd then [] else upcoming ends rest

/-- **What the client has still to take**, the oldest first. -/
def events (r : Relay) : List StreamEvent :=
  r.queue ++ r.held.toList ++ if r.isReading then upcoming r.ends r.coming else []

/-- A reader that does not read has come to the end. -/
def Sound (r : Relay) : Prop := r.isReading = false → ∃ event ∈ r.events, event.isEnd = true

/-- How many moves are left, at most. -/
def weight (r : Relay) : Nat :=
  r.queue.length + 2 * r.held.toList.length +
    if r.isReading then 3 * (r.coming.length + r.ends.toNat) else 0

variable {r : Relay} {event : StreamEvent}

theorem sound_ofStream (items : List TimedItem) (ending : Option Nat) :
    (ofStream items ending).Sound := fun h => nomatch h

/-- A client that receives a sound stream receives no other. -/
theorem Sound.of_receiving (h : r.Sound) {called : Metadata} (called' : Metadata) (r' : Relay)
    (heq : ClientPhase.receiving called r = .receiving called' r') : r'.Sound := by
  cases heq
  exact h

/-- What a move of the reader does: it takes an item or the end of the stream, or nothing. -/
theorem read_cases (r : Relay) :
    r.read = r ∨
      (r.isReading = true ∧ r.held = none ∧ ∃ item rest, r.coming = item :: rest ∧
        r.read = { r with
          coming := rest, isReading := !(StreamEvent.ofItem item).isEnd, held := some (.ofItem item) }) ∨
      (r.isReading = true ∧ r.held = none ∧ r.coming = [] ∧ r.ends = true ∧
        r.read = { r with isReading := false, held := some (.ended .completed) }) := by
  obtain ⟨coming, ends, isReading, held, queue⟩ := r
  cases isReading with
  | false => exact .inl rfl
  | true =>
    cases held with
    | some event => exact .inl rfl
    | none =>
      cases coming with
      | cons item rest => exact .inr (.inl ⟨rfl, rfl, item, rest, rfl, rfl⟩)
      | nil =>
        cases ends with
        | false => exact .inl rfl
        | true => exact .inr (.inr ⟨rfl, rfl, rfl, rfl, rfl⟩)

/-- … and what a move into the queue does. -/
theorem enqueue_cases (r : Relay) :
    r.enqueue = r ∨ ∃ event, r.held = some event ∧
      r.enqueue = { r with held := none, queue := r.queue ++ [event] } := by
  obtain ⟨coming, ends, isReading, held, queue⟩ := r
  cases held with
  | none => exact .inl rfl
  | some event =>
    rw [enqueue]
    by_cases hroom : queue.length < capacity
    · exact .inr ⟨event, rfl, if_pos hroom⟩
    · exact .inl (if_neg hroom)

/-- **A move of the reader keeps what is to be taken.** -/
theorem events_read (r : Relay) : r.read.events = r.events := by
  obtain h | ⟨hreading, hheld, item, rest, hcoming, h⟩ | ⟨hreading, hheld, hcoming, hends, h⟩ :=
    read_cases r
  · rw [h]
  · rw [h, events, events, hreading, hheld, hcoming, upcoming]
    cases (StreamEvent.ofItem item).isEnd <;> simp
  · rw [h, events, events, hreading, hheld, hcoming, upcoming, hends]
    simp

/-- **So does a move into the queue.** -/
theorem events_enqueue (r : Relay) : r.enqueue.events = r.events := by
  obtain h | ⟨event, hheld, h⟩ := enqueue_cases r
  · rw [h]
  · rw [h, events, events, hheld]
    simp

theorem Sound.read (h : r.Sound) : r.read.Sound := by
  rw [Sound, events_read]
  obtain heq | ⟨hreading, hheld, item, rest, hcoming, heq⟩ | ⟨hreading, hheld, hcoming, hends, heq⟩ :=
    read_cases r
  · rwa [heq]
  · rw [heq, events, hreading, hcoming, upcoming]
    intro hend
    exact ⟨.ofItem item, by simp, by simpa using hend⟩
  · rw [events, hreading, hcoming, upcoming, hends]
    exact fun _ => ⟨.ended .completed, by simp, rfl⟩

theorem Sound.enqueue (h : r.Sound) : r.enqueue.Sound := by
  rw [Sound, events_enqueue]
  obtain heq | ⟨event, -, heq⟩ := enqueue_cases r
  · rwa [heq]
  · rwa [heq]

/-- **The client takes the oldest**; that an empty queue is closed never comes up. -/
theorem Sound.take?_cases (h : r.Sound) :
    (r.queue = [] ∧ r.take? = none) ∨ ∃ event rest, r.queue = event :: rest ∧
      r.take? = some (event, { r with queue := rest }) := by
  obtain ⟨coming, ends, isReading, held, queue⟩ := r
  cases queue with
  | cons event rest => exact .inr ⟨event, rest, rfl, rfl⟩
  | nil =>
    refine .inl ⟨rfl, ?_⟩
    cases isReading with
    | true => rfl
    | false =>
      cases held with
      | some _ => rfl
      | none =>
        -- The queue is closed, but the end would still have to be in it.
        obtain ⟨event, hmem, -⟩ := h rfl
        cases hmem

section Queue

variable {rest : List StreamEvent} (hqueue : r.queue = event :: rest)

include hqueue

theorem events_of_queue : r.events = event :: { r with queue := rest }.events := by
  rw [events, hqueue]
  rfl

theorem weight_of_queue : r.weight = { r with queue := rest }.weight + 1 := by
  simp only [weight, hqueue, List.length_cons]
  omega

/-- What is left is sound, unless the end was taken. -/
theorem Sound.of_queue (h : r.Sound) (hevent : event.isEnd = false) :
    { r with queue := rest }.Sound := by
  intro hreading
  obtain ⟨last, hmem, hlast⟩ := h hreading
  rw [events_of_queue hqueue] at hmem
  rcases List.mem_cons.mp hmem with rfl | hmem
  · rw [hevent] at hlast
    cases hlast
  · exact ⟨last, hmem, hlast⟩

end Queue

/-! ### Moves are finite in number -/

theorem read_eq_or_lt (r : Relay) : r.read = r ∨ r.read.weight < r.weight := by
  obtain h | ⟨hreading, hheld, item, rest, hcoming, h⟩ | ⟨hreading, hheld, hcoming, hends, h⟩ :=
    read_cases r
  · exact .inl h
  · refine .inr ?_
    rw [h, weight, weight, hreading, hheld, hcoming]
    cases (StreamEvent.ofItem item).isEnd <;> simp <;> omega
  · refine .inr ?_
    rw [h, weight, weight, hreading, hheld, hcoming, hends]
    simp

theorem enqueue_eq_or_lt (r : Relay) : r.enqueue = r ∨ r.enqueue.weight < r.weight := by
  obtain h | ⟨event, hheld, h⟩ := enqueue_cases r
  · exact .inl h
  · refine .inr ?_
    rw [h, weight, weight, hheld]
    simp

/-- **As long as a stream has something to bring**, it can be taken, or put into the queue, or read. -/
theorem exists_move (r : Relay) (h : 0 < r.weight) :
    r.queue ≠ [] ∨ r.enqueue.weight < r.weight ∨ r.read.weight < r.weight := by
  obtain ⟨coming, ends, isReading, held, queue⟩ := r
  cases queue with
  | cons event rest => exact .inl (List.cons_ne_nil _ _)
  | nil =>
    refine .inr ?_
    cases held with
    | some event =>
      refine .inl ((enqueue_eq_or_lt _).resolve_left ?_)
      simp [enqueue, capacity]
    | none =>
      refine .inr ((read_eq_or_lt _).resolve_left ?_)
      cases isReading with
      | false => simp [weight] at h
      | true =>
        cases coming with
        | cons item rest => simp [read]
        | nil =>
          cases ends with
          | true => simp [read]
          | false => simp [weight] at h

/-- A stream with no moves left has brought everything. -/
theorem events_of_weight (h : r.weight = 0) : r.events = [] := by
  rw [weight] at h
  have hqueue : r.queue = [] := List.length_eq_zero_iff.mp (by omega)
  have hheld : r.held.toList = [] := List.length_eq_zero_iff.mp (by omega)
  rw [events, hqueue, hheld]
  by_cases hreading : r.isReading = true
  · rw [if_pos hreading] at h
    have hcoming : r.coming = [] := List.length_eq_zero_iff.mp (by omega)
    have hends : r.ends = false := Bool.toNat_eq_zero.mp (by omega)
    rw [hcoming, hends, if_pos hreading]
    rfl
  · rw [if_neg hreading]
    rfl

end Relay

end FeatureFlags
