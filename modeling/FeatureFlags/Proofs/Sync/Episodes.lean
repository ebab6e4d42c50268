import FeatureFlags.Sync.StreamSource
import Mathlib.Data.List.Basic
import Mathlib.Order.Nat

/-!
# Proofs/Sync/Episodes — what a client does from one call to the next

An attempt brings `Attempt.configurations` and comes to `Attempt.conclusion?`.  An end is silent as long
as no attempt has ended since the last configuration, which is what the place in the backoff says
(`Backoff.IsReconnect`).  So the acts of a client fall into episodes, one for each attempt that is made,
and an episode depends on its attempt and on the configurations and ends before it
(`Stream.acts_run`).  Acts are in the order of their times (`Stream.pairwise_runFrom`), so a client that is
stopped has done the beginning of what it would have done (`StreamSource.acts_stop`).
-/

namespace FeatureFlags

/-! ## What an attempt brings -/

namespace StreamItem

/-- The configuration that an item brings. -/
def configuration? : StreamItem → Option (String × Option Metadata)
  | configuration text context => some (text, context)
  | _ => none

/-- The end that an item brings. -/
def failure? : StreamItem → Option AttemptEnd
  | failure code message => some (.failed (code.name ++ ": " ++ message))
  | _ => none

end StreamItem

namespace Attempt

/-- What a stream brings, in order; a refused call brings nothing. -/
def items : Attempt → List StreamItem
  | refused _ => []
  | opened items _ => items.map (·.item)

/-- **The configurations of an attempt**: those before its stream breaks. -/
def configurations (a : Attempt) : List (String × Option Metadata) :=
  (a.items.takeWhile (·.failure?.isNone)).filterMap (·.configuration?)

/-- **How an attempt ends**, if it does: with a refusal, at the first failure or after the last item. -/
def conclusion? : Attempt → Option AttemptEnd
  | refused failure => some (.failed failure.message)
  | opened items ending =>
    ((items.map (·.item)).findSome? (·.failure?)).or (ending.map fun _ => .completed)

/-- **What an attempt delivers**: each configuration with its own annotations, or else with those that
were called for. -/
def deliveries (metadata : Metadata) (a : Attempt) : List Payload :=
  a.configurations.map fun c => .data c.1 (c.2.getD metadata)

end Attempt

/-- **What an attempt leads to**, its times apart. -/
structure AttemptResult.Realizes (r : AttemptResult) (metadata : Metadata) (b : Backoff)
    (a : Attempt) : Prop where
  sent : r.sent.map (·.2) = a.deliveries metadata
  backoff : r.backoff = a.configurations.foldl (fun b _ => b.reset) b
  ended : r.ended.map (·.2) = a.conclusion?

namespace Stream

variable {metadata : Metadata} {now : Nat} {b : Backoff} {ending : Option Nat}

theorem realizes_follow (items : List TimedItem) :
    (follow metadata now b ending items).Realizes metadata b (.opened items ending) := by
  induction items generalizing now b with
  | nil => exact ⟨rfl, rfl, by cases ending <;> rfl⟩
  | cons timed rest ih =>
    obtain ⟨delay, item⟩ := timed
    cases item with
    | configuration text context =>
      obtain ⟨hsent, hbackoff, hended⟩ := @ih (now + delay) b.reset
      refine ⟨?_, hbackoff, hended⟩
      rw [follow, List.map_cons, hsent]
      rfl
    | keepAlive =>
      obtain ⟨hsent, hbackoff, hended⟩ := @ih (now + delay) b
      exact ⟨hsent, hbackoff, hended⟩
    | failure code message => exact ⟨rfl, rfl, rfl⟩

/-- **An attempt delivers its configurations**, resets the backoff at each and ends as it concludes. -/
theorem realizes_attempt (a : Attempt) :
    (attempt metadata now b a).Realizes metadata b a := by
  cases a with
  | refused failure => exact ⟨rfl, rfl, rfl⟩
  | opened items ending => exact realizes_follow items

/-! ### Times -/

theorem pairwise_cons_of_le {first second : Nat} {times : List Nat} (hle : first ≤ second)
    (h : (second :: times).Pairwise (· ≤ ·)) : (first :: second :: times).Pairwise (· ≤ ·) := by
  refine List.pairwise_cons.mpr ⟨?_, h⟩
  intro time htime
  rcases List.mem_cons.mp htime with rfl | htime
  · exact hle
  · exact hle.trans (List.rel_of_pairwise_cons h htime)

theorem pairwise_append_of_le {times later : List Nat} {last next : Nat}
    (h : (times ++ [last]).Pairwise (· ≤ ·)) (hle : last ≤ next)
    (h' : (next :: later).Pairwise (· ≤ ·)) : (times ++ [last] ++ later).Pairwise (· ≤ ·) := by
  refine List.pairwise_append.mpr ⟨h, h'.of_cons, ?_⟩
  intro early hearly late hlate
  have hlast : early ≤ last := by
    rcases List.mem_append.mp hearly with hearly | hearly
    · exact (List.pairwise_append.mp h).2.2 early hearly last (List.mem_singleton_self last)
    · exact (List.mem_singleton.mp hearly).le
  exact (hlast.trans hle).trans (List.rel_of_pairwise_cons h' hlate)

/-- The times of an attempt, from its call to its end. -/
def timesOf (now : Nat) (r : AttemptResult) : List Nat :=
  now :: r.sent.map (·.1) ++ (r.ended.map (·.1)).toList

theorem pairwise_follow (items : List TimedItem) :
    (timesOf now (follow metadata now b ending items)).Pairwise (· ≤ ·) := by
  induction items generalizing now b with
  | nil => cases ending <;> simp [timesOf, follow]
  | cons timed rest ih =>
    obtain ⟨delay, item⟩ := timed
    have hlater := Nat.le_add_right now delay
    cases item with
    | configuration text context => exact pairwise_cons_of_le hlater ih
    | keepAlive => exact (pairwise_cons_of_le hlater ih).sublist (.cons_cons _ (.cons _ (.refl _)))
    | failure code message => simp [timesOf, follow]

/-- What an attempt does is in the order of its times. -/
theorem pairwise_attempt (a : Attempt) :
    (timesOf now (attempt metadata now b a)).Pairwise (· ≤ ·) := by
  cases a with
  | refused failure => simp [timesOf, attempt]
  | opened items ending => exact pairwise_follow items

end Stream

/-! ## What has happened before an end -/

/-- **What matters for an end.** -/
inductive Milestone
  | configuration
  | ended
  deriving DecidableEq

/-- **An attempt has ended since the last configuration**, or since the start if there was none. -/
def EndedSince (history : List Milestone) : Prop :=
  ∃ earlier later, history = earlier ++ .ended :: later ∧ .configuration ∉ later

section History

variable {history : List Milestone}

/-- Only the last milestone counts. -/
theorem endedSince_iff : EndedSince history ↔ history.getLast? = some .ended := by
  constructor
  · rintro ⟨earlier, later, rfl, hlater⟩
    rcases List.eq_nil_or_concat later with rfl | ⟨before, last, rfl⟩
    · simp
    · have hlast : last = .ended := by
        cases last with
        | configuration => simp at hlater
        | ended => rfl
      rw [hlast, List.concat_eq_append, ← List.cons_append, ← List.append_assoc, List.getLast?_concat]
  · intro h
    obtain ⟨earlier, rfl⟩ := List.getLast?_eq_some_iff.mp h
    exact ⟨earlier, [], rfl, List.not_mem_nil⟩

instance : Decidable (EndedSince history) := decidable_of_iff' _ endedSince_iff

theorem endedSince_concat_ended : EndedSince (history ++ [.ended]) :=
  endedSince_iff.mpr (by simp)

theorem not_endedSince_concat_configuration : ¬ EndedSince (history ++ [.configuration]) := by
  rw [endedSince_iff]
  simp

end History

namespace Attempt

/-- The milestones of an attempt before its end. -/
def arrivals (a : Attempt) : List Milestone := a.configurations.map fun _ => .configuration

/-- The milestones of an attempt that ends. -/
def milestones (a : Attempt) : List Milestone := a.arrivals ++ [.ended]

/-- **What is reported of an attempt**: its end, if another one has gone before it since the last
configuration. -/
def reports (history : List Milestone) (a : Attempt) : List Payload :=
  match a.conclusion? with
  | some ended => if EndedSince (history ++ a.arrivals) then [.fault ended.message] else []
  | none => []

end Attempt

namespace Backoff

/-- **The schedule of a stream stands where its history puts it**: at the free attempt, or past it. -/
inductive IsReconnect (first ceiling : Nat) : List Milestone → Backoff → Prop
  | free {history : List Milestone} (h : ¬ EndedSince history) :
      IsReconnect first ceiling history (reconnect first ceiling)
  | used {history : List Milestone} (h : EndedSince history) (current : Nat) :
      IsReconnect first ceiling history
        (sequence [bounded 1 1 (constant 0), doubling (min first ceiling) ceiling current] 1)

variable {first ceiling : Nat} {history : List Milestone} {b : Backoff}

theorem isReconnect_start : IsReconnect first ceiling [] (reconnect first ceiling) :=
  .free (by rw [endedSince_iff]; simp)

/-- **An end is silent** unless an attempt has ended since the last configuration. -/
theorem IsReconnect.isSilent_iff (h : IsReconnect first ceiling history b) :
    Stream.isSilent b = true ↔ ¬ EndedSince history := by
  cases h with
  | free hnot => exact iff_of_true rfl hnot
  | used hended current => exact iff_of_false (by simp [Stream.isSilent, index]) (not_not_intro hended)

/-- A configuration sets the schedule back. -/
theorem IsReconnect.reset (h : IsReconnect first ceiling history b) :
    IsReconnect first ceiling (history ++ [.configuration]) b.reset := by
  have hreset : b.reset = reconnect first ceiling := by cases h <;> rfl
  rw [hreset]
  exact .free not_endedSince_concat_configuration

/-- An end moves the schedule on. -/
theorem IsReconnect.advance (h : IsReconnect first ceiling history b) :
    IsReconnect first ceiling (history ++ [.ended]) b.advance := by
  cases h with
  | free _ => exact .used endedSince_concat_ended _
  | used _ current => exact .used endedSince_concat_ended (min (2 * current) ceiling)

/-- **The schedule after the configurations of an attempt.** -/
theorem IsReconnect.arrivals (h : IsReconnect first ceiling history b) (a : Attempt) :
    IsReconnect first ceiling (history ++ a.arrivals)
      (a.configurations.foldl (fun b _ => b.reset) b) := by
  rw [Attempt.arrivals]
  induction a.configurations generalizing history b with
  | nil => simpa using h
  | cons c rest ih => simpa using ih h.reset

end Backoff

namespace Stream

/-! ## Episodes -/

/-- **The attempts that are made**: those up to the first that never ends. -/
def made : List Attempt → List Attempt
  | [] => []
  | a :: rest => a :: if a.conclusion?.isSome then made rest else []

/-- What has happened before an attempt. -/
def history (attempts : List Attempt) (number : Nat) : List Milestone :=
  (attempts.take number).flatMap Attempt.milestones

/-- **What the client does from one call to the next.** -/
def episode (metadata : Metadata) (history : List Milestone) (a : Attempt) : List StreamAct :=
  .call :: (a.deliveries metadata ++ a.reports history).map .send

/-- The last call, to which nothing comes. -/
def lastCall (attempts : List Attempt) : List StreamAct :=
  if attempts.all (·.conclusion?.isSome) then [.call] else []

variable {metadata : Nat → Metadata} {draw : Nat → Nat} {greatestJitter first ceiling : Nat}

theorem history_cons (a : Attempt) (rest : List Attempt) (number : Nat) :
    history (a :: rest) (number + 1) = a.milestones ++ history rest number := by
  rw [history, List.take_succ_cons, List.flatMap_cons]
  rfl

/-- What is reported, its time apart. -/
theorem report_eq {before : List Milestone} {b : Backoff}
    (hb : b.IsReconnect first ceiling before) (time : Nat) (ended : AttemptEnd) :
    (report b time ended).map (·.2) =
      if EndedSince before then [.fault ended.message] else [] := by
  rw [report]
  by_cases hsilent : EndedSince before
  · rw [if_neg (hb.isSilent_iff.not.mpr (not_not_intro hsilent)), if_pos hsilent]
    rfl
  · rw [if_pos (hb.isSilent_iff.mpr hsilent), if_neg hsilent]
    rfl

/-- The first of the attempts that are made, and the others. -/
theorem made_cons {α : Type} (f : Attempt × Nat → List α) (a : Attempt) (rest : List Attempt) :
    (made (a :: rest)).zipIdx.flatMap f =
      f (a, 0) ++ if a.conclusion?.isSome then
        (made rest).zipIdx.flatMap (fun e => f (e.1, e.2 + 1)) else [] := by
  rw [made, List.zipIdx_cons, List.flatMap_cons, List.zipIdx_succ, List.flatMap_map]
  split <;> rfl

theorem lastCall_cons (a : Attempt) (rest : List Attempt) :
    lastCall (a :: rest) = if a.conclusion?.isSome then lastCall rest else [] := by
  rw [lastCall, List.all_cons]
  cases a.conclusion?.isSome <;> rfl

/-- Payloads that are sent, as acts. -/
def sends (payloads : List (Nat × Payload)) : List (Nat × StreamAct) :=
  payloads.map fun p => (p.1, .send p.2)

theorem map_fst_sends (payloads : List (Nat × Payload)) :
    (sends payloads).map (·.1) = payloads.map (·.1) := by
  rw [sends, List.map_map]
  rfl

theorem map_snd_sends (payloads : List (Nat × Payload)) :
    (sends payloads).map (·.2) = (payloads.map (·.2)).map .send := by
  rw [sends, List.map_map, List.map_map]
  rfl

section Cons

variable {number now : Nat} {b : Backoff} {a : Attempt} {rest : List Attempt}

/-- What a client does about an attempt that never ends. -/
theorem runFrom_endless (h : (attempt (metadata number) now b a).ended = none) :
    runFrom metadata greatestJitter draw number now b (a :: rest) =
      (now, .call) :: sends (attempt (metadata number) now b a).sent := by
  rw [runFrom, h]
  exact List.append_nil _

/-- … and about one that ends: it waits, and goes on. -/
theorem runFrom_ended_wait {time : Nat} {ended : AttemptEnd}
    (h : (attempt (metadata number) now b a).ended = some (time, ended)) :
    runFrom metadata greatestJitter draw number now b (a :: rest) =
      (now, .call) :: sends ((attempt (metadata number) now b a).sent ++
        report (attempt (metadata number) now b a).backoff time ended) ++
      runFrom metadata greatestJitter draw (number + 1)
        (time + ((attempt (metadata number) now b a).backoff.next greatestJitter (draw number)).1)
        (attempt (metadata number) now b a).backoff.advance rest := by
  rw [runFrom, h, sends, List.map_append, List.cons_append, List.cons_append, List.append_assoc]
  rfl

theorem runFrom_ended {time : Nat} {ended : AttemptEnd}
    (h : (attempt (metadata number) now b a).ended = some (time, ended)) :
    ∃ wait, runFrom metadata greatestJitter draw number now b (a :: rest) =
      (now, .call) :: sends ((attempt (metadata number) now b a).sent ++
        report (attempt (metadata number) now b a).backoff time ended) ++
      runFrom metadata greatestJitter draw (number + 1) (time + wait)
        (attempt (metadata number) now b a).backoff.advance rest :=
  ⟨_, runFrom_ended_wait h⟩

end Cons

/-- **From a call on the client goes through its episodes.** -/
theorem acts_runFrom {number now : Nat} {b : Backoff} {before : List Milestone}
    (hb : b.IsReconnect first ceiling before) (attempts : List Attempt) :
    (runFrom metadata greatestJitter draw number now b attempts).map (·.2) =
      (made attempts).zipIdx.flatMap (fun e =>
        episode (metadata (number + e.2)) (before ++ history attempts e.2) e.1) ++
      lastCall attempts := by
  -- from any back-off that is one of reconnecting, so that the next attempt may start from its own
  induction attempts generalizing number now b before with
  | nil => rfl
  | cons a rest ih =>
    obtain ⟨hsent, hbackoff, hended⟩ := @realizes_attempt (metadata number) now b a
    have hfirst : history (a :: rest) 0 = [] := rfl
    rw [made_cons, lastCall_cons, ← hended, episode, Attempt.reports, ← hended, hfirst,
      List.append_nil]
    rcases hresult : (attempt (metadata number) now b a).ended with - | ⟨time, ended⟩
    · rw [runFrom_endless hresult, List.map_cons, map_snd_sends, hsent]
      simp
    · have hnow : Backoff.IsReconnect first ceiling (before ++ a.arrivals) _ :=
        hbackoff ▸ hb.arrivals a
      obtain ⟨wait, hrun⟩ := @runFrom_ended metadata draw greatestJitter number now b a rest _ _ hresult
      rw [hrun, List.map_append, List.map_cons, map_snd_sends, List.map_append, hsent,
        report_eq hnow, ih hnow.advance]
      simp [history_cons, Attempt.milestones, Nat.add_assoc, Nat.add_comm 1]

/-- **A client goes through its episodes**, one for each attempt that is made. -/
theorem acts_run (s : Settings) (service : Service) (draw : Nat → Nat) (now : Nat) :
    (run s service draw now).map (·.2) =
      (made service.attempts).zipIdx.flatMap (fun e =>
        episode (calledMetadata s service e.2) (history service.attempts e.2) e.1) ++
      lastCall service.attempts := by
  have hstart := @Backoff.isReconnect_start s.retryBackoff s.retryBackoffMax
  have hacts := @acts_runFrom (calledMetadata s service) draw s.retryJitter _ _ 0 now _ _ hstart
    service.attempts
  simpa only [run, Nat.zero_add, List.nil_append] using hacts

/-- What is picked out of the acts of a client comes from what it sends in its episodes. -/
theorem filterMap_acts_run {α : Type} {pick : StreamAct → Option α} (hcall : pick .call = none)
    (s : Settings) (service : Service) (draw : Nat → Nat) (now : Nat) :
    ((run s service draw now).map (·.2)).filterMap pick =
      (made service.attempts).zipIdx.flatMap fun e =>
        (e.1.deliveries (calledMetadata s service e.2) ++
          e.1.reports (history service.attempts e.2)).filterMap fun payload => pick (.send payload) := by
  have hlast : (lastCall service.attempts).filterMap pick = [] := by
    rw [lastCall]
    split
    · rw [List.filterMap_cons_none hcall, List.filterMap_nil]
    · rfl
  rw [acts_run, List.filterMap_append, hlast, List.append_nil, List.filterMap_flatMap]
  refine List.flatMap_congr fun e _ => ?_
  rw [episode, List.filterMap_cons_none hcall, List.filterMap_map]
  rfl

/-! ### In the order of time -/

/-- What is reported, if anything, is reported at once. -/
theorem map_fst_report_sublist (b : Backoff) (time : Nat) (ended : AttemptEnd) :
    ((report b time ended).map (·.1)).Sublist [time] := by
  rw [report]
  split
  · exact List.nil_sublist _
  · exact List.Sublist.refl _

/-- **What the client does is in the order of its times.** -/
theorem pairwise_runFrom {number now : Nat} {b : Backoff} (attempts : List Attempt) :
    (now :: (runFrom metadata greatestJitter draw number now b attempts).map (·.1)).Pairwise
      (· ≤ ·) := by
  -- the end of an attempt bounds its times, and the next call is a wait after it
  induction attempts generalizing number now b with
  | nil => simp [runFrom]
  | cons a rest ih =>
    have hattempt := @pairwise_attempt (metadata number) now b a
    rw [timesOf] at hattempt
    rcases hresult : (attempt (metadata number) now b a).ended with - | ⟨time, ended⟩
    · rw [hresult] at hattempt
      rw [runFrom_endless hresult, List.map_cons, map_fst_sends]
      exact pairwise_cons_of_le (Nat.le_refl now) (by simpa using hattempt)
    · obtain ⟨wait, hrun⟩ := @runFrom_ended metadata draw greatestJitter number now b a rest _ _ hresult
      rw [hresult] at hattempt
      have hlater := @ih (number + 1) (time + wait)
        (attempt (metadata number) now b a).backoff.advance
      have hall := pairwise_append_of_le hattempt (Nat.le_add_right time wait) hlater
      rw [hrun, List.map_append, List.map_cons, map_fst_sends, List.map_append]
      refine pairwise_cons_of_le (Nat.le_refl now) (hall.sublist ?_)
      exact (((map_fst_report_sublist _ time ended).append_left _).append_right _).cons_cons now

end Stream

/-! ## Until it is stopped -/

/-- In an ascending list those before a limit are the first. -/
theorem filter_eq_takeWhile {α : Type} {acts : List (Nat × α)} {limit : Nat}
    (h : (acts.map (·.1)).Pairwise (· ≤ ·)) :
    acts.filter (·.1 < limit) = acts.takeWhile (·.1 < limit) := by
  induction acts with
  | nil => rfl
  | cons act rest ih =>
    obtain ⟨hact, hrest⟩ := List.pairwise_cons.mp h
    by_cases hlt : act.1 < limit
    · rw [List.filter_cons_of_pos (by simpa using hlt), List.takeWhile_cons_of_pos (by simpa using hlt),
        ih hrest]
    · have hlater : ∀ later ∈ rest, ¬ later.1 < limit := by
        intro later hmem
        have hle : act.1 ≤ later.1 := hact _ (List.mem_map_of_mem hmem)
        omega
      rw [List.takeWhile_cons_of_neg (by simpa using hlt), List.filter_cons_of_neg (by simpa using hlt),
        List.filter_eq_nil_iff]
      simpa using hlater

namespace StreamSource

variable {settings : Settings} {service : Service} {draw : Nat → Nat} {now : Nat}

/-- A source that was started, and runs. -/
def started (settings : Settings) (service : Service) (now : Nat) : StreamSource :=
  ⟨settings, service, some now, none⟩

theorem start_create : (create settings service).start now = .ok (started settings service now) := rfl

/-- **A source that runs does what the client does.** -/
theorem acts_started : (started settings service now).acts draw = Stream.run settings service draw now := by
  rw [acts, started]
  exact List.filter_eq_self.mpr fun _ _ => rfl

/-- **A source that is stopped has done the beginning of it.** -/
theorem acts_stop (time : Nat) :
    ((started settings service now).stop time).acts draw =
      (Stream.run settings service draw now).takeWhile (·.1 < time) :=
  filter_eq_takeWhile (Stream.pairwise_runFrom service.attempts).of_cons

end StreamSource

end FeatureFlags
