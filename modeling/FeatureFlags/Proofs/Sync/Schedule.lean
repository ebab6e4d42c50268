import FeatureFlags.Sync.Backoff
import Mathlib.Data.List.DropRight
import Mathlib.Data.List.Iterate

/-!
# Proofs/Sync/Schedule — schedules compose

A `Schedule` is a backoff that has not begun, built from delays, doubling delays, limits and chains.
Whatever was done with it, it stands where it would stand after the moves since the last return to its
start (`Backoff.run_eq_iterate`): a move is undone by a return (`Backoff.reset_advance`).  A chain reads
as its members read one after the other, each until it is exhausted (`Backoff.readings_chain`), and its
place is always that of a member (`Backoff.OfSize.iterate_advance`).
-/

namespace FeatureFlags

namespace Backoff

/-- **Induction over backoffs.**  A sequence is reached from its members. -/
@[elab_as_elim]
theorem induct {motive : Backoff → Prop} (constant : ∀ delay, motive (constant delay))
    (doubling : ∀ first ceiling current, motive (doubling first ceiling current))
    (bounded : ∀ budget used inner, motive inner → motive (bounded budget used inner))
    (sequence : ∀ members index, (∀ b ∈ members, motive b) → motive (sequence members index)) :
    ∀ b, motive b
  | .constant delay => constant delay
  | .doubling first ceiling current => doubling first ceiling current
  | .bounded budget used inner =>
    bounded budget used inner (induct constant doubling bounded sequence inner)
  | .sequence members index =>
    sequence members index fun b _ => induct constant doubling bounded sequence b

/-! ## Moves and returns -/

/-- **What can be done with a backoff.** -/
inductive Move
  | advance
  | reset
  deriving DecidableEq

def move (b : Backoff) : Move → Backoff
  | .advance => b.advance
  | .reset => b.reset

/-- Moves, one after the other. -/
def run (b : Backoff) (moves : List Move) : Backoff := moves.foldl move b

/-- **How often a backoff was moved on since the last return to its start.** -/
def sinceReset (moves : List Move) : Nat := (moves.rtakeWhile (· = .advance)).length

theorem sinceReset_concat_advance (moves : List Move) :
    sinceReset (moves ++ [.advance]) = sinceReset moves + 1 := by
  simp [sinceReset]

theorem sinceReset_concat_reset (moves : List Move) : sinceReset (moves ++ [.reset]) = 0 := by
  simp [sinceReset]

theorem run_concat (b : Backoff) (moves : List Move) (last : Move) :
    b.run (moves ++ [last]) = (b.run moves).move last := by
  rw [run, run, List.foldl_concat]

theorem resetAll_advanceAt {members : List Backoff} (h : ∀ b ∈ members, b.advance.reset = b.reset)
    (index : Nat) : resetAll (advanceAt members index) = resetAll members := by
  induction members generalizing index with
  | nil => rfl
  | cons b rest ih =>
    obtain ⟨hb, hrest⟩ := List.forall_mem_cons.mp h
    cases index with
    | zero => rw [advanceAt, resetAll, resetAll, hb]
    | succ index => rw [advanceAt, resetAll, resetAll, ih hrest]

/-- **A return to the start undoes a move.** -/
theorem reset_advance (b : Backoff) : b.advance.reset = b.reset := by
  induction b using induct with
  | constant delay => rfl
  | doubling first ceiling current => rfl
  | bounded budget used inner ih =>
    rw [advance]
    split
    · rfl
    · rw [reset, reset, ih]
  | sequence members index ih =>
    rw [advance, sequenceFrom, reset, reset, resetAll_advanceAt ih]

theorem reset_iterate_advance (b : Backoff) (count : Nat) : (advance^[count] b).reset = b.reset := by
  induction count with
  | zero => rfl
  | succ count ih => rw [Function.iterate_succ_apply', reset_advance, ih]

/-- **A backoff at its start stands, after any moves, where those since the last return put it.** -/
theorem run_eq_iterate {b : Backoff} (hstart : b.reset = b) (moves : List Move) :
    b.run moves = advance^[sinceReset moves] b := by
  induction moves using List.reverseRecOn with
  | nil => rfl
  | append_singleton moves last ih =>
    rw [run_concat, ih]
    cases last with
    | advance => rw [sinceReset_concat_advance, Function.iterate_succ_apply', move]
    | reset => rw [sinceReset_concat_reset, move, reset_iterate_advance, hstart, Function.iterate_zero_apply]

/-! ## The member in force -/

section Member

variable (past : List Backoff) (b : Backoff) (rest : List Backoff)

theorem delayAt_length : delayAt (past ++ b :: rest) past.length = b.delay := by
  induction past with
  | nil => rfl
  | cons _ _ ih => exact ih

theorem isLastExhausted_length :
    isLastExhausted (past ++ b :: rest) past.length = (rest.isEmpty && b.isExhausted) := by
  induction past with
  | nil => rfl
  | cons _ _ ih => exact ih

theorem advanceAt_length : advanceAt (past ++ b :: rest) past.length = past ++ b.advance :: rest := by
  induction past with
  | nil => rfl
  | cons c _ ih => exact congrArg (c :: ·) ih

theorem sequenceFrom_length :
    sequenceFrom (past ++ b :: rest) past.length =
      sequence (past ++ b :: rest) (past.length + passed (b :: rest)) := by
  rw [sequenceFrom, List.drop_left]

/-- The member in force moves on. -/
theorem advance_sequence :
    (sequence (past ++ b :: rest) past.length).advance =
      sequenceFrom (past ++ b.advance :: rest) past.length := by
  rw [advance, advanceAt_length]

variable {b rest}

/-- **An exhausted member is passed over**, unless it is the last. -/
theorem sequenceFrom_of_exhausted (hb : b.isExhausted = true) (hrest : rest ≠ []) :
    sequenceFrom (past ++ b :: rest) past.length =
      sequenceFrom ((past ++ [b]) ++ rest) (past ++ [b]).length := by
  rw [sequenceFrom_length, sequenceFrom, List.drop_left, passed, hb]
  simp [hrest, Nat.add_assoc, Nat.add_comm 1]

/-- … and any other is in force. -/
theorem sequenceFrom_of_active (h : b.isExhausted = false ∨ rest = []) :
    sequenceFrom (past ++ b :: rest) past.length = sequence (past ++ b :: rest) past.length := by
  rw [sequenceFrom_length, passed]
  rcases h with hb | hrest
  · simp [hb]
  · simp [hrest]

end Member

/-! ## Readings -/

/-- **What can be read of a backoff.** -/
structure Reading where
  delay : Nat
  isExhausted : Bool
  place : Nat
  deriving DecidableEq

def reading (b : Backoff) : Reading := ⟨b.delay, b.isExhausted, b.index⟩

/-- **The readings before each of so many moves.** -/
def readings (b : Backoff) (count : Nat) : List Reading := (List.iterate advance b count).map reading

/-- A backoff before each of so many moves, until it is exhausted. -/
def unexhausted (b : Backoff) (count : Nat) : List Backoff :=
  (List.iterate advance b count).takeWhile (!·.isExhausted)

/-- **What members read in turn**, from a place on: each until it is exhausted, and then the last. -/
def inTurn (place : Nat) (front : List Backoff) (last : Backoff) (count : Nat) : List Reading :=
  ((front.zipIdx place).flatMap fun e => (e.1.unexhausted count).map fun b => ⟨b.delay, false, e.2⟩) ++
    (List.iterate advance last count).map fun b => ⟨b.delay, b.isExhausted, place + front.length⟩

variable {place count : Nat} {b last : Backoff} {front rest : List Backoff}

theorem readings_succ (b : Backoff) (count : Nat) :
    b.readings (count + 1) = b.reading :: b.advance.readings count := rfl

theorem unexhausted_succ (b : Backoff) (count : Nat) :
    b.unexhausted (count + 1) = if b.isExhausted then [] else b :: b.advance.unexhausted count := by
  rw [unexhausted, List.iterate, List.takeWhile_cons]
  cases b.isExhausted <;> rfl

theorem inTurn_nil :
    inTurn place [] last count =
      (List.iterate advance last count).map fun b => ⟨b.delay, b.isExhausted, place⟩ := rfl

theorem inTurn_cons :
    inTurn place (b :: rest) last count =
      ((b.unexhausted count).map fun b => ⟨b.delay, false, place⟩) ++
        inTurn (place + 1) rest last count := by
  rw [inTurn, inTurn, List.zipIdx_cons, List.flatMap_cons, List.append_assoc, List.length_cons,
    Nat.add_right_comm, Nat.add_assoc]

/-! ### The beginning of what is read in turn

Of so many readings in turn no member gives more than so many, so how far each is followed beyond that
does not matter. -/

theorem take_append_congr {α : Type} {later later' : List α}
    (h : later.take count = later'.take count) (early : List α) :
    (early ++ later).take count = (early ++ later').take count := by
  have htake := congrArg (List.take (count - early.length)) h
  rw [List.take_take, List.take_take, Nat.min_eq_left (Nat.sub_le _ _)] at htake
  rw [List.take_append, List.take_append, htake]

theorem take_unexhausted {α : Type} (f : Backoff → α) (later : List α) (b : Backoff) {more : Nat}
    (h : count ≤ more) :
    ((b.unexhausted more).map f ++ later).take count =
      ((b.unexhausted count).map f ++ later).take count := by
  induction count generalizing b more with
  | zero => rfl
  | succ count ih =>
    obtain ⟨more, rfl⟩ := Nat.exists_eq_add_of_le' h
    rw [← Nat.add_assoc, unexhausted_succ, unexhausted_succ]
    by_cases hb : b.isExhausted = true
    · rw [if_pos hb, if_pos hb]
    · rw [if_neg hb, if_neg hb, List.map_cons, List.map_cons, List.cons_append, List.cons_append,
        List.take_succ_cons, List.take_succ_cons, ih b.advance (Nat.le_add_left count more)]

theorem take_inTurn (place : Nat) (front : List Backoff) (last : Backoff) {more : Nat}
    (h : count ≤ more) :
    (inTurn place front last more).take count = (inTurn place front last count).take count := by
  induction front generalizing place with
  | nil =>
    rw [inTurn_nil, inTurn_nil, ← List.map_take, ← List.map_take, List.take_iterate,
      List.take_iterate, Nat.min_eq_left h, Nat.min_self]
  | cons b rest ih =>
    rw [inTurn_cons, inTurn_cons, take_unexhausted _ _ b h]
    exact take_append_congr (ih (place + 1)) _

/-! ### Chains -/

/-- The last member of a sequence stays in force. -/
theorem readings_last (past : List Backoff) (last : Backoff) (count : Nat) :
    (sequence (past ++ [last]) past.length).readings count = inTurn past.length [] last count := by
  induction count generalizing last with
  | zero => rfl
  | succ count ih =>
    have hreading : (sequence (past ++ [last]) past.length).reading =
        ⟨last.delay, last.isExhausted, past.length⟩ := by
      rw [reading, delay, isExhausted, delayAt_length, isLastExhausted_length]
      rfl
    have hadvance := advance_sequence past last []
    rw [sequenceFrom_of_active past (.inr rfl)] at hadvance
    rw [readings_succ, hreading, hadvance, ih, inTurn_nil, inTurn_nil]
    rfl

/-- **A sequence reads as its members read in turn**, from the member in force on. -/
theorem readings_sequenceFrom (past front : List Backoff) (last : Backoff) (count : Nat) :
    (sequenceFrom (past ++ (front ++ [last])) past.length).readings count =
      (inTurn past.length front last count).take count := by
  induction front generalizing past count with
  | nil =>
    have hall : (inTurn past.length [] last count).length = count := by
      rw [inTurn_nil, List.length_map, List.length_iterate]
    rw [List.nil_append, sequenceFrom_of_active past (.inr rfl), readings_last,
      List.take_of_length_le hall.le]
  | cons b rest ih =>
    -- As long as the member in force is not exhausted, the count goes down; then it is passed over.
    induction count generalizing b with
    | zero => rfl
    | succ count ihcount =>
      have hrest : rest ++ [last] ≠ [] := List.append_ne_nil_of_right_ne_nil _ (List.cons_ne_nil _ _)
      rw [List.cons_append, inTurn_cons, unexhausted_succ]
      by_cases hb : b.isExhausted = true
      · rw [sequenceFrom_of_exhausted past hb hrest, ih (past ++ [b]), if_pos hb, List.length_append]
        rfl
      · have hreading : (sequence (past ++ b :: (rest ++ [last])) past.length).reading =
            ⟨b.delay, false, past.length⟩ := by
          rw [reading, delay, isExhausted, delayAt_length, isLastExhausted_length]
          simp [index]
        have hlater := take_append_congr
          (take_inTurn (past.length + 1) rest last (Nat.le_succ count))
          ((b.advance.unexhausted count).map fun b => (⟨b.delay, false, past.length⟩ : Reading))
        rw [sequenceFrom_of_active past (.inl (by simpa using hb)), readings_succ, hreading,
          advance_sequence, ← List.cons_append, ihcount b.advance, inTurn_cons, if_neg hb,
          List.map_cons, List.cons_append, List.take_succ_cons, hlater]

theorem readings_chain (front : List Backoff) (last : Backoff) (count : Nat) :
    (chain (front ++ [last])).readings count = (inTurn 0 front last count).take count :=
  readings_sequenceFrom [] front last count

/-! ### Places -/

/-- **A sequence of so many members**, one of which is in force. -/
def OfSize (size : Nat) (b : Backoff) : Prop :=
  ∃ members index, b = sequence members index ∧ members.length = size ∧ index < size

theorem passed_lt {members : List Backoff} (h : members ≠ []) : passed members < members.length := by
  induction members with
  | nil => exact absurd rfl h
  | cons b rest ih =>
    rw [passed]
    split
    · rename_i hpassed
      have hrest : rest ≠ [] := by
        rintro rfl
        cases hpassed
      exact Nat.succ_lt_succ (ih hrest)
    · exact Nat.succ_pos _

theorem ofSize_sequenceFrom {members : List Backoff} {index : Nat} (h : index < members.length) :
    (sequenceFrom members index).OfSize members.length := by
  have hpassed : passed (members.drop index) < (members.drop index).length :=
    passed_lt (by simpa using h)
  rw [List.length_drop] at hpassed
  exact ⟨members, _, rfl, rfl, by omega⟩

theorem length_advanceAt (members : List Backoff) (index : Nat) :
    (advanceAt members index).length = members.length := by
  induction members generalizing index with
  | nil => rfl
  | cons b rest ih =>
    cases index with
    | zero => rfl
    | succ index => exact congrArg (· + 1) (ih index)

theorem OfSize.advance {size : Nat} (h : b.OfSize size) : b.advance.OfSize size := by
  obtain ⟨members, index, rfl, rfl, hindex⟩ := h
  rw [Backoff.advance, ← length_advanceAt members index]
  exact ofSize_sequenceFrom (by rwa [length_advanceAt])

theorem OfSize.iterate_advance {size : Nat} (h : b.OfSize size) (count : Nat) :
    (Backoff.advance^[count] b).OfSize size := by
  induction count with
  | zero => exact h
  | succ count ih =>
    rw [Function.iterate_succ_apply']
    exact ih.advance

theorem OfSize.index_lt {size : Nat} (h : b.OfSize size) : b.index < size := by
  obtain ⟨members, index, rfl, -, hindex⟩ := h
  exact hindex

/-- **A move does not take the place back.** -/
theorem index_le_index_advance (b : Backoff) : b.index ≤ b.advance.index := by
  cases b with
  | constant delay => exact Nat.le_refl 0
  | doubling first ceiling current => exact Nat.le_refl 0
  | bounded budget used inner => exact Nat.zero_le _
  | sequence members index => exact Nat.le_add_right index _

end Backoff

/-! ## Schedules -/

/-- **A backoff that has not begun.**  A chain has a last member. -/
inductive Schedule
  | constant (delay : Nat)
  | exponential (first ceiling : Nat)
  | limited (budget : Nat) (inner : Schedule)
  | chain (front : List Schedule) (last : Schedule)
  deriving Inhabited

namespace Schedule

mutual

/-- **A schedule at its start.** -/
def begin : Schedule → Backoff
  | constant delay => .constant delay
  | exponential first ceiling => .exponential first ceiling
  | limited budget inner => .limited budget inner.begin
  | chain front last => .chain (beginAll front ++ [last.begin])

def beginAll : List Schedule → List Backoff
  | [] => []
  | s :: rest => s.begin :: beginAll rest

end

@[elab_as_elim]
theorem induct {motive : Schedule → Prop} (constant : ∀ delay, motive (constant delay))
    (exponential : ∀ first ceiling, motive (exponential first ceiling))
    (limited : ∀ budget inner, motive inner → motive (limited budget inner))
    (chain : ∀ front last, (∀ s ∈ front, motive s) → motive last → motive (chain front last)) :
    ∀ s, motive s
  | .constant delay => constant delay
  | .exponential first ceiling => exponential first ceiling
  | .limited budget inner => limited budget inner (induct constant exponential limited chain inner)
  | .chain front last =>
    chain front last (fun s _ => induct constant exponential limited chain s)
      (induct constant exponential limited chain last)

theorem beginAll_eq_map (schedules : List Schedule) : beginAll schedules = schedules.map begin := by
  induction schedules with
  | nil => rfl
  | cons s rest ih => rw [beginAll, ih, List.map_cons]

theorem resetAll_eq_self {members : List Backoff} (h : ∀ b ∈ members, b.reset = b) :
    Backoff.resetAll members = members := by
  induction members with
  | nil => rfl
  | cons b rest ih =>
    obtain ⟨hb, hrest⟩ := List.forall_mem_cons.mp h
    rw [Backoff.resetAll, hb, ih hrest]

/-- **A schedule begins at its start.** -/
theorem reset_begin (s : Schedule) : s.begin.reset = s.begin := by
  induction s using induct with
  | constant delay => rfl
  | exponential first ceiling => rfl
  | limited budget inner ih => rw [begin, Backoff.limited, Backoff.reset, ih]
  | chain front last ihfront ihlast =>
    have hmembers : ∀ b ∈ beginAll front ++ [last.begin], b.reset = b := by
      intro b hb
      rw [beginAll_eq_map] at hb
      rcases List.mem_append.mp hb with hb | hb
      · obtain ⟨s, hs, rfl⟩ := List.mem_map.mp hb
        exact ihfront s hs
      · rw [List.mem_singleton.mp hb]
        exact ihlast
    rw [begin, Backoff.chain, Backoff.sequenceFrom, Backoff.reset, resetAll_eq_self hmembers,
      Backoff.sequenceFrom]

theorem begin_chain (front : List Schedule) (last : Schedule) :
    (chain front last).begin = .chain (front.map begin ++ [last.begin]) := by
  rw [begin, beginAll_eq_map]

theorem ofSize_begin_chain (front : List Schedule) (last : Schedule) :
    (chain front last).begin.OfSize (front.length + 1) := by
  have hsize := @Backoff.ofSize_sequenceFrom (front.map begin ++ [last.begin]) 0 (by simp)
  rw [List.length_append, List.length_map, List.length_singleton] at hsize
  rw [begin_chain]
  exact hsize

/-- **Schedules compose.**  However a schedule was moved on and returned to its start, it stands where it
stands after as many moves from its start as were made since the last return.  A chain reads, move by
move, as its members read in turn, each until it is exhausted, and then the last; so it is exhausted with
the last one only.  Its place is always that of a member, and no move takes it back. -/
theorem composes (s last : Schedule) (front : List Schedule) (moves : List Backoff.Move)
    (count : Nat) :
    s.begin.run moves = Backoff.advance^[Backoff.sinceReset moves] s.begin ∧
      (chain front last).begin.readings count =
        (Backoff.inTurn 0 (front.map begin) last.begin count).take count ∧
      ((chain front last).begin.run moves).index < front.length + 1 ∧
      ((chain front last).begin.run moves).index ≤
        ((chain front last).begin.run (moves ++ [.advance])).index := by
  refine ⟨Backoff.run_eq_iterate (reset_begin s) moves, ?_, ?_, ?_⟩
  · rw [begin_chain, Backoff.readings_chain]
  · rw [Backoff.run_eq_iterate (reset_begin _)]
    exact ((ofSize_begin_chain front last).iterate_advance _).index_lt
  · rw [Backoff.run_concat]
    exact Backoff.index_le_index_advance _

/-- A chain in a chain, with a member that has no budget. -/
example : ((chain [limited 0 (constant 9), chain [limited 1 (constant 3)] (limited 2 (exponential 1 8))]
      (limited 1 (exponential 5 7))).begin.readings 6).map (fun r => (r.delay, r.isExhausted, r.place)) =
    [(3, false, 1), (1, false, 1), (2, false, 1), (5, false, 2), (7, true, 2), (7, true, 2)] := rfl

end Schedule

end FeatureFlags
