import FeatureFlags.Proofs.Sync.Episodes
import FeatureFlags.Proofs.Sync.Schedule
import FeatureFlags.Sync.Span

/-!
# Proofs/Sync/Waits — how long a client waits between two calls

After the end of an attempt the schedule of a stream stands where so many moves from its start put it as
attempts have ended in a row (`Backoff.after`), and its delay there is `Backoff.reconnectDelay`
(`Backoff.delay_after`).  So the time between two calls is what the attempt lasts, that delay and a random
part (`Stream.waits_reckoned`), and reckoned in spans the wait is the same, without a sum that does not
fit.
-/

namespace FeatureFlags

/-! ## Delays -/

namespace Backoff

/-- **The delay after the end of an attempt**, by the number of ends in a row. -/
def reconnectDelay (first ceiling : Nat) : Nat → Nat
  | 0 | 1 => 0
  | n + 2 => min (first * 2 ^ n) ceiling

variable {first ceiling : Nat}

theorem reconnectDelay_le {ends : Nat} : reconnectDelay first ceiling ends ≤ ceiling := by
  rw [reconnectDelay.eq_def]
  split <;> omega

/-- Doubled up to the ceiling. -/
theorem min_double (count : Nat) :
    min (2 * min (first * 2 ^ count) ceiling) ceiling = min (first * 2 ^ (count + 1)) ceiling := by
  rw [pow_succ, ← Nat.mul_assoc]
  omega

theorem iterate_advance_exponential (count : Nat) :
    advance^[count] (exponential first ceiling) =
      doubling (min first ceiling) ceiling (min (first * 2 ^ count) ceiling) := by
  induction count with
  | zero => rw [Function.iterate_zero_apply, pow_zero, Nat.mul_one, exponential]
  | succ count ih =>
    rw [Function.iterate_succ_apply', ih, advance, min_double]

theorem reading_iterate_advance (b : Backoff) (count : Nat) :
    (b.readings (count + 1))[count]? = some (advance^[count] b).reading := by
  rw [readings, List.getElem?_map, List.getElem?_iterate _ _ _ _ (Nat.lt_succ_self count)]
  rfl

/-- A free attempt is used up by the first move. -/
theorem unexhausted_free (count : Nat) :
    (limited 1 (constant 0)).unexhausted (count + 1) = [limited 1 (constant 0)] := by
  have hfree : (limited 1 (constant 0)).isExhausted = false := rfl
  have hused : (limited 1 (constant 0)).advance.unexhausted count = [] := by cases count <;> rfl
  rw [unexhausted_succ, hfree, hused]
  rfl

/-- **The delays of a stream**: none for the free attempt, then doubled each time, up to the ceiling. -/
theorem delay_iterate_reconnect (count : Nat) :
    (advance^[count] (reconnect first ceiling)).delay = reconnectDelay first ceiling (count + 1) := by
  have hchain : (reconnect first ceiling).readings (count + 1) =
      (inTurn 0 [limited 1 (constant 0)] (exponential first ceiling) (count + 1)).take (count + 1) :=
    readings_chain [limited 1 (constant 0)] (exponential first ceiling) (count + 1)
  have hread := reading_iterate_advance (reconnect first ceiling) count
  rw [hchain, List.getElem?_take_of_lt (Nat.lt_succ_self count), inTurn_cons, unexhausted_free,
    inTurn_nil, List.map_singleton, List.singleton_append] at hread
  cases count with
  | zero => rfl
  | succ count =>
    rw [List.getElem?_cons_succ, List.getElem?_map,
      List.getElem?_iterate _ _ _ _ (by omega), iterate_advance_exponential] at hread
    have hdelay := congrArg Reading.delay (Option.some.inj hread)
    exact hdelay.symm

end Backoff

/-! ## After a history -/

/-- **How many attempts have ended in a row**: since the last configuration, or since the start. -/
def endsInARow (history : List Milestone) : Nat := (history.rtakeWhile (· = .ended)).length

theorem endsInARow_concat_ended (history : List Milestone) :
    endsInARow (history ++ [.ended]) = endsInARow history + 1 := by
  simp [endsInARow]

theorem endsInARow_concat_configuration (history : List Milestone) :
    endsInARow (history ++ [.configuration]) = 0 := by
  simp [endsInARow]

theorem endsInARow_replicate (count : Nat) : endsInARow (List.replicate count .ended) = count := by
  rw [endsInARow, List.rtakeWhile_eq_self_iff.mpr, List.length_replicate]
  intro m hm
  rw [List.eq_of_mem_replicate hm]
  rfl

/-- What a milestone does to the schedule of a stream. -/
def Milestone.move : Milestone → Backoff.Move
  | configuration => .reset
  | ended => .advance

theorem sinceReset_map_move (history : List Milestone) :
    Backoff.sinceReset (history.map Milestone.move) = endsInARow history := by
  induction history using List.reverseRecOn with
  | nil => rfl
  | append_singleton history last ih =>
    rw [List.map_append, List.map_singleton]
    cases last with
    | configuration => rw [endsInARow_concat_configuration]; exact Backoff.sinceReset_concat_reset _
    | ended =>
      rw [endsInARow_concat_ended, ← ih]
      exact Backoff.sinceReset_concat_advance _

namespace Backoff

variable {first ceiling : Nat}

/-- **The schedule of a stream after a history.** -/
def after (first ceiling : Nat) (history : List Milestone) : Backoff :=
  (reconnect first ceiling).run (history.map Milestone.move)

theorem after_concat (history : List Milestone) (last : Milestone) :
    after first ceiling (history ++ [last]) = (after first ceiling history).move last.move := by
  rw [after, List.map_append, List.map_singleton, run_concat, after]

/-- The schedule of a stream has the delay of the end that comes next. -/
theorem delay_after (history : List Milestone) :
    (after first ceiling history).delay = reconnectDelay first ceiling (endsInARow history + 1) := by
  have hstart : (reconnect first ceiling).reset = reconnect first ceiling := rfl
  rw [after, run_eq_iterate hstart, sinceReset_map_move, delay_iterate_reconnect]

/-- Configurations set the schedule back. -/
theorem after_arrivals (history : List Milestone) (a : Attempt) :
    a.configurations.foldl (fun b _ => b.reset) (after first ceiling history) =
      after first ceiling (history ++ a.arrivals) := by
  rw [Attempt.arrivals]
  induction a.configurations generalizing history with
  | nil => rw [List.foldl_nil, List.map_nil, List.append_nil]
  | cons c rest ih =>
    have hreset : (after first ceiling history).reset =
        after first ceiling (history ++ [.configuration]) := by
      rw [after_concat]
      rfl
    rw [List.foldl_cons, hreset, ih, List.append_assoc]
    rfl

end Backoff

/-! ## How long an attempt lasts -/

namespace Attempt

/-- The time until a stream breaks, or ends after its last item. -/
def lastingOf (ending : Nat) : List TimedItem → Nat
  | [] => ending
  | timed :: rest =>
    timed.delay + if timed.item.failure?.isSome then 0 else lastingOf ending rest

/-- **How long an attempt lasts** that ends. -/
def lasting : Attempt → Nat
  | refused _ => 0
  | opened items ending => lastingOf (ending.getD 0) items

end Attempt

namespace Stream

section Times

variable {metadata : Metadata} {now time : Nat} {b : Backoff} {ending : Option Nat}
  {ended : AttemptEnd}

theorem time_of_follow (items : List TimedItem)
    (h : (follow metadata now b ending items).ended = some (time, ended)) :
    time = now + Attempt.lastingOf (ending.getD 0) items := by
  induction items generalizing now b with
  | nil =>
    obtain ⟨delay, hending, heq⟩ := Option.map_eq_some_iff.mp h
    obtain ⟨rfl, -⟩ := Prod.mk.inj heq
    rw [hending]
    rfl
  | cons timed rest ih =>
    obtain ⟨delay, item⟩ := timed
    -- a failure ends the attempt at its time, and what comes behind it does not last
    rw [Attempt.lastingOf]
    cases item with
    | configuration text context =>
      rw [ih h, Nat.add_assoc]
      rfl
    | keepAlive =>
      rw [ih h, Nat.add_assoc]
      rfl
    | failure code message =>
      obtain ⟨rfl, -⟩ := Prod.mk.inj (Option.some.inj h)
      rfl

/-- **An attempt that ends has lasted so long.** -/
theorem time_of_attempt {a : Attempt} (h : (attempt metadata now b a).ended = some (time, ended)) :
    time = now + a.lasting := by
  cases a with
  | refused failure =>
    obtain ⟨rfl, -⟩ := Prod.mk.inj (Option.some.inj h)
    rfl
  | opened items ending => exact time_of_follow items h

end Times

/-! ## Calls -/

variable {metadata : Nat → Metadata} {draw : Nat → Nat} {greatestJitter first ceiling : Nat}

theorem calls_append (acts later : List (Nat × StreamAct)) :
    calls (acts ++ later) = calls acts ++ calls later := List.filterMap_append

theorem calls_sends (payloads : List (Nat × Payload)) : calls (sends payloads) = [] := by
  rw [calls, sends, List.filterMap_map]
  exact List.filterMap_eq_nil_iff.mpr fun _ _ => rfl

theorem calls_call (now : Nat) (acts : List (Nat × StreamAct)) :
    calls ((now, .call) :: acts) = now :: calls acts := rfl

/-- A client begins with a call. -/
theorem head?_calls_runFrom (number now : Nat) (b : Backoff) (attempts : List Attempt) :
    (calls (runFrom metadata greatestJitter draw number now b attempts))[0]? = some now := by
  cases attempts with
  | nil => rfl
  | cons a rest =>
    rw [runFrom]
    rfl

/-- **The wait after an attempt**, by the history before it. -/
def waitAfter (first ceiling greatestJitter random : Nat) (history : List Milestone) (a : Attempt) :
    Nat :=
  Backoff.reconnectDelay first ceiling (endsInARow (history ++ a.milestones)) +
    Backoff.jitter greatestJitter random

/-- **After an attempt that ends a client waits, and calls again.** -/
theorem calls_runFrom_cons {a : Attempt} {ended : AttemptEnd} (ha : a.conclusion? = some ended)
    (before : List Milestone) (number now : Nat) (rest : List Attempt) :
    calls (runFrom metadata greatestJitter draw number now (Backoff.after first ceiling before)
        (a :: rest)) =
      now :: calls (runFrom metadata greatestJitter draw (number + 1)
        (now + a.lasting + waitAfter first ceiling greatestJitter (draw number) before a)
        (Backoff.after first ceiling (before ++ a.milestones)) rest) := by
  obtain ⟨-, hbackoff, hended⟩ :=
    @realizes_attempt (metadata number) now (Backoff.after first ceiling before) a
  rw [ha, Option.map_eq_some_iff] at hended
  obtain ⟨⟨time, ended⟩, hresult, rfl⟩ := hended
  rw [Backoff.after_arrivals] at hbackoff
  have hadvance : (Backoff.after first ceiling (before ++ a.arrivals)).advance =
      Backoff.after first ceiling (before ++ a.milestones) := by
    rw [Attempt.milestones, ← List.append_assoc, Backoff.after_concat]
    rfl
  have hwait : ((Backoff.after first ceiling (before ++ a.arrivals)).next greatestJitter
      (draw number)).1 = waitAfter first ceiling greatestJitter (draw number) before a := by
    rw [Backoff.next, Backoff.delay_after, waitAfter, Attempt.milestones, ← List.append_assoc,
      endsInARow_concat_ended]
  rw [runFrom_ended_wait hresult, hbackoff, hwait, hadvance, time_of_attempt hresult, calls_append,
    calls_call, calls_sends]
  rfl

/-- **The times of the calls of a client**: after each attempt that ends, when the wait is over. -/
theorem calls_runFrom {attempts : List Attempt} {index : Nat} {a : Attempt}
    (ha : attempts[index]? = some a)
    (hends : ∀ c ∈ attempts.take (index + 1), c.conclusion?.isSome = true)
    (before : List Milestone) (number now : Nat) :
    ∃ call, (calls (runFrom metadata greatestJitter draw number now
        (Backoff.after first ceiling before) attempts))[index]? = some call ∧
      (calls (runFrom metadata greatestJitter draw number now
        (Backoff.after first ceiling before) attempts))[index + 1]? =
        some (call + a.lasting + waitAfter first ceiling greatestJitter (draw (number + index))
          (before ++ history attempts index) a) := by
  -- over the attempts, from any state: what is behind is told by the milestones `before`
  induction attempts generalizing index before number now with
  | nil => cases ha
  | cons c rest ih =>
    rw [List.take_succ_cons] at hends
    obtain ⟨hc, hrest⟩ := List.forall_mem_cons.mp hends
    obtain ⟨ended, hended⟩ := Option.isSome_iff_exists.mp hc
    rw [calls_runFrom_cons hended]
    cases index with
    | zero =>
      obtain rfl : c = a := Option.some.inj ha
      refine ⟨now, rfl, ?_⟩
      rw [List.getElem?_cons_succ, head?_calls_runFrom]
      simp [history]
    | succ index =>
      obtain ⟨call, hcall, hnext⟩ := ih ha hrest (before ++ c.milestones) (number + 1)
        (now + c.lasting + waitAfter first ceiling greatestJitter (draw number) before c)
      have hnumber : number + 1 + index = number + (index + 1) := by omega
      refine ⟨call, hcall, ?_⟩
      rw [List.getElem?_cons_succ, hnext, history_cons, List.append_assoc, hnumber]

theorem history_succ {attempts : List Attempt} {index : Nat} {a : Attempt}
    (ha : attempts[index]? = some a) :
    history attempts (index + 1) = history attempts index ++ a.milestones := by
  rw [history, history, List.take_add_one, ha, List.flatMap_append]
  simp

/-- A source that is stopped has made the calls that were due before. -/
theorem calls_stop (s : Settings) (service : Service) (draw : Nat → Nat) (now time : Nat) :
    calls (((StreamSource.started s service now).stop time).acts draw) =
      (calls (run s service draw now)).filter (· < time) := by
  have hacts : ((StreamSource.started s service now).stop time).acts draw =
      (run s service draw now).filter (·.1 < time) := rfl
  rw [hacts, calls, calls]
  induction run s service draw now with
  | nil => rfl
  | cons act rest ih =>
    obtain ⟨due, act⟩ := act
    by_cases hdue : due < time <;> cases act <;> simp [hdue, ih]

end Stream

/-! ## Reckoned in spans -/

namespace Span

variable {first ceiling : Nat}

theorem double_fits {ms : Nat} (hle : ms ≤ ceiling) (hceiling : ceiling ≤ Numeral.greatest64) :
    2 * (ms * 1000000) ≤ greatest := by
  unfold greatest
  omega

/-- **Delays reckoned in spans are the same**: no doubling is cut. -/
theorem nanos_delayAfter (hfirst : first ≤ Numeral.greatest64) (hceiling : ceiling ≤ Numeral.greatest64)
    (ends : Nat) :
    (delayAfter (ofMillis first hfirst) (ofMillis ceiling hceiling) ends).nanos =
      Backoff.reconnectDelay first ceiling ends * 1000000 := by
  induction ends using delayAfter.induct with
  | case1 => exact (Nat.zero_mul _).symm
  | case2 => exact (Nat.zero_mul _).symm
  | case3 =>
    rw [delayAfter, nanos_least, nanos_ofMillis, nanos_ofMillis, Backoff.reconnectDelay, pow_zero,
      Nat.mul_one, Nat.mul_min_mul_right]
  | case4 n ih =>
    have hle := @Backoff.reconnectDelay_le first ceiling (n + 2)
    have hfits := double_fits hle hceiling
    have hdouble : Backoff.reconnectDelay first ceiling (n + 3) =
        min (2 * Backoff.reconnectDelay first ceiling (n + 2)) ceiling := (Backoff.min_double n).symm
    rw [delayAfter, nanos_least, nanos_doubled, ih, Nat.min_eq_left hfits, nanos_ofMillis, hdouble,
      ← Nat.mul_assoc, Nat.mul_min_mul_right]

/-- **So are waits**: the sum of the delay and the random part fits. -/
theorem exists_wait (hfirst : first ≤ Numeral.greatest64) (hceiling : ceiling ≤ Numeral.greatest64)
    {greatestJitter : Nat} (hjitter : greatestJitter ≤ Numeral.greatest64) (draw ends : Nat) :
    ∃ total, wait? (ofMillis first hfirst) (ofMillis ceiling hceiling) (ofMillis greatestJitter hjitter)
        draw ends = some total ∧
      total.nanos =
        (Backoff.reconnectDelay first ceiling ends + Backoff.jitter greatestJitter draw) * 1000000 := by
  have hle := @Backoff.reconnectDelay_le first ceiling ends
  have hrandom := (ofMillis greatestJitter hjitter).jitter_le draw
  have hmillis := millis_ofMillis hjitter
  have hsum : (delayAfter (ofMillis first hfirst) (ofMillis ceiling hceiling) ends).nanos +
      (ofMillis _ hrandom).nanos ≤ greatest := by
    rw [nanos_delayAfter, nanos_ofMillis]
    unfold greatest
    omega
  refine ⟨⟨_, hsum⟩, dif_pos hsum, ?_⟩
  show _ + _ = _
  rw [nanos_delayAfter, nanos_ofMillis, hmillis, Nat.add_mul]

end Span

namespace Stream

/-- How many attempts have ended in a row when an attempt has. -/
def endsAfter (attempts : List Attempt) (index : Nat) : Nat := endsInARow (history attempts (index + 1))

/-- **The law of waits.**  When the attempts of a client have ended up to some attempt, it has called for
that one, and it calls again when the attempt has lasted and a wait is over.  The wait is at least the
delay after so many ends in a row as there are then since the last configuration, or since the start, and
at most the greatest random part longer.  Reckoned in spans it is the same: the sum fits, and no doubling
on the way is cut.  A source that is stopped makes those of the calls that are due before. -/
theorem waits_reckoned (s : Settings) (service : Service) (draw : Nat → Nat) (now : Nat) {index : Nat}
    {a : Attempt} (ha : service.attempts[index]? = some a)
    (hends : ∀ c ∈ service.attempts.take (index + 1), c.conclusion?.isSome = true)
    (hfirst : s.retryBackoff ≤ Numeral.greatest64) (hceiling : s.retryBackoffMax ≤ Numeral.greatest64)
    (hjitter : s.retryJitter ≤ Numeral.greatest64) :
    (∃ call wait,
      (calls (run s service draw now))[index]? = some call ∧
      (calls (run s service draw now))[index + 1]? = some (call + a.lasting + wait) ∧
      Backoff.reconnectDelay s.retryBackoff s.retryBackoffMax (endsAfter service.attempts index) ≤ wait ∧
      wait ≤ Backoff.reconnectDelay s.retryBackoff s.retryBackoffMax
        (endsAfter service.attempts index) + s.retryJitter ∧
      ∃ total, Span.wait? (.ofMillis _ hfirst) (.ofMillis _ hceiling) (.ofMillis _ hjitter)
          (draw index) (endsAfter service.attempts index) = some total ∧
        total.nanos = wait * 1000000) ∧
      (∀ ends, 2 * (Span.delayAfter (.ofMillis _ hfirst) (.ofMillis _ hceiling) ends).nanos ≤
        Span.greatest) ∧
      ∀ time, calls (((StreamSource.started s service now).stop time).acts draw) =
        (calls (run s service draw now)).filter (· < time) := by
  refine ⟨?_, fun ends => ?_, calls_stop s service draw now⟩
  · obtain ⟨call, hcall, hnext⟩ := @calls_runFrom (calledMetadata s service) draw s.retryJitter
      s.retryBackoff s.retryBackoffMax _ _ _ ha hends [] 0 now
    rw [waitAfter, List.nil_append, Nat.zero_add, ← history_succ ha] at hnext
    have hrandom := Backoff.jitter_le s.retryJitter (draw index)
    exact ⟨call, _, hcall, hnext, Nat.le_add_right _ _, Nat.add_le_add_left hrandom _,
      Span.exists_wait hfirst hceiling hjitter _ _⟩
  · rw [Span.nanos_delayAfter]
    exact Span.double_fits Backoff.reconnectDelay_le hceiling

/-- Settings with the greatest delays there are. -/
def slowest : Settings :=
  { (∅ : Layer).settle with
    retryBackoff := Numeral.greatest64
    retryBackoffMax := Numeral.greatest64
    retryJitter := Numeral.greatest64 }

/-- A service that brings one configuration and fails before and after. -/
def unsteady : Service :=
  ⟨fun _ => none, [.refused .closed, .opened [⟨5, .configuration "a" none⟩] (some 0), .refused .closed,
    .opened [⟨1, .keepAlive⟩] (some 3)]⟩

/-- The last attempt is the third that ends in a row. -/
theorem waits_reckoned_slowest :
    ∃ call wait,
      (calls (run slowest unsteady id 0))[3]? = some call ∧
      (calls (run slowest unsteady id 0))[4]? = some (call + 4 + wait) ∧
      Numeral.greatest64 ≤ wait ∧ wait ≤ Numeral.greatest64 + Numeral.greatest64 ∧
      ∃ total, Span.wait? (.ofMillis Numeral.greatest64 (Nat.le_refl _))
        (.ofMillis Numeral.greatest64 (Nat.le_refl _)) (.ofMillis Numeral.greatest64 (Nat.le_refl _)) 3 3 =
          some total ∧ total.nanos = wait * 1000000 :=
  (@waits_reckoned slowest unsteady id 0 3 _ rfl (by decide) (Nat.le_refl _) (Nat.le_refl _)
    (Nat.le_refl _)).1

end Stream

end FeatureFlags
