import FeatureFlags.Proofs.Sync.Episodes
import FeatureFlags.Proofs.Sync.Relay
import Mathlib.Data.List.Forall2

/-!
# Proofs/Sync/Turns — what is sent is what the stream brings, in every row of turns

`Stream.sendsFrom` is what a client sends from a call on.  In every row of turns of reader and client,
what was sent and what is still due make up the whole (`StreamClient.OnCourse`): the reader's moves keep
what is to come, and the client takes it in order.  So a client that is stopped has sent a beginning
(`OnCourse.prefix_foldl`), and one in which reader and client get their turns again and again has sent
everything after so many rounds (`OnCourse.sent_of_rounds`), since every turn that changes something is
one of a finite number (`StreamClient.weight`).

`Stream.deliveries_in_order` adds what the whole is: one payload for each configuration that came, with
the annotations that are due to it (`Stream.Labels`).
-/

namespace FeatureFlags

/-! ## What is sent from a call on -/

/-- A payload that brings a configuration. -/
def Payload.isData : Payload → Bool
  | data _ _ => true
  | fault _ => false

/-- What an act sends. -/
def StreamAct.payload? : StreamAct → Option Payload
  | call => none
  | send payload => some payload

namespace Stream

variable {metadata : Nat → Metadata} {number : Nat} {before : List Milestone} {rest : List Attempt}

/-- **What a client sends from a call on**, its times apart. -/
def sendsFrom (metadata : Nat → Metadata) (number : Nat) (before : List Milestone)
    (attempts : List Attempt) : List Payload :=
  (made attempts).zipIdx.flatMap fun e =>
    e.1.deliveries (metadata (number + e.2)) ++ e.1.reports (before ++ history attempts e.2)

/-- What it sends from the end of an attempt on, if there is one. -/
def sendsAfter (metadata : Nat → Metadata) (number : Nat) (before : List Milestone)
    (attempts : List Attempt) : Option AttemptEnd → List Payload
  | none => []
  | some ended =>
    (if EndedSince before then [.fault ended.message] else []) ++
      sendsFrom metadata number (before ++ [.ended]) attempts

theorem sendsFrom_cons (a : Attempt) :
    sendsFrom metadata number before (a :: rest) =
      a.deliveries (metadata number) ++
        sendsAfter metadata (number + 1) (before ++ a.arrivals) rest a.conclusion? := by
  have hfirst : history (a :: rest) 0 = [] := rfl
  rw [sendsFrom, made_cons, Attempt.reports, hfirst, List.append_nil, List.append_assoc]
  cases a.conclusion? with
  | none => rfl
  | some ended =>
    simp only [sendsAfter, sendsFrom, history_cons, Attempt.milestones, Option.isSome_some, if_true,
      List.append_assoc, Nat.add_zero, Nat.add_assoc, Nat.add_comm 1]

/-- What is sent, its times apart. -/
theorem map_snd_payloads (acts : List (Nat × StreamAct)) :
    (payloads acts).map (·.2) = (acts.map (·.2)).filterMap (·.payload?) := by
  rw [payloads, List.map_filterMap, List.filterMap_map]
  refine List.filterMap_congr fun act _ => ?_
  rcases act with ⟨time, _ | payload⟩ <;> rfl

/-- **A run sends what is sent from its first call on.** -/
theorem map_snd_payloads_run (s : Settings) (service : Service) (draw : Nat → Nat) (now : Nat) :
    (payloads (run s service draw now)).map (·.2) =
      sendsFrom (calledMetadata s service) 0 [] service.attempts := by
  rw [map_snd_payloads, filterMap_acts_run rfl, sendsFrom]
  refine List.flatMap_congr fun e _ => ?_
  rw [Nat.zero_add, List.nil_append]
  exact List.filterMap_some

/-- **The configurations among it.** -/
theorem filter_isData_sendsFrom (attempts : List Attempt) :
    (sendsFrom metadata number before attempts).filter (·.isData) =
      (made attempts).zipIdx.flatMap fun e => e.1.deliveries (metadata (number + e.2)) := by
  rw [sendsFrom, List.filter_flatMap]
  refine List.flatMap_congr fun e _ => ?_
  have hdeliveries : (e.1.deliveries (metadata (number + e.2))).filter (·.isData) =
      e.1.deliveries (metadata (number + e.2)) := by
    refine List.filter_eq_self.mpr fun payload hpayload => ?_
    obtain ⟨c, -, rfl⟩ := List.mem_map.mp hpayload
    rfl
  have hreports : (e.1.reports (before ++ history attempts e.2)).filter (·.isData) = [] := by
    rw [Attempt.reports]
    split
    · split <;> rfl
    · rfl
  rw [List.filter_append, hdeliveries, hreports, List.append_nil]

end Stream

/-! ## The client -/

namespace StreamClient

variable {metadata : Nat → Metadata} {first ceiling number : Nat} {called : Metadata}
  {attempts : List Attempt} {before : List Milestone} {whole : List Payload} {c : StreamClient}

/-- **What a client sends on a row of events**, and from the end of the stream on. -/
def sendsOn (metadata : Nat → Metadata) (number : Nat) (attempts : List Attempt) (called : Metadata)
    (before : List Milestone) : List StreamEvent → List Payload
  | [] => []
  | .configuration text context :: rest =>
    -- Its own annotations go with this configuration and with no other.
    .data text (context.getD called) ::
      sendsOn metadata number attempts called (before ++ [.configuration]) rest
  | .keepAlive :: rest => sendsOn metadata number attempts called before rest
  | .ended how :: _ => Stream.sendsAfter metadata number before attempts (some how)

/-- **On the events of a stream it sends what the attempt delivers**, and what comes after. -/
theorem sendsOn_upcoming (items : List TimedItem) (ending : Option Nat) :
    sendsOn metadata number attempts called before
        (Relay.upcoming ending.isSome (items.map (·.item))) =
      (Attempt.opened items ending).deliveries called ++
        Stream.sendsAfter metadata number (before ++ (Attempt.opened items ending).arrivals) attempts
          (Attempt.opened items ending).conclusion? := by
  induction items generalizing before with
  | nil =>
    rw [show (Attempt.opened [] ending).arrivals = [] from rfl, List.append_nil]
    cases ending <;> rfl
  | cons timed rest ih =>
    obtain ⟨delay, item⟩ := timed
    cases item with
    | configuration text context =>
      have hlater := @ih (before ++ [.configuration])
      rw [List.append_assoc] at hlater
      exact congrArg (_ :: ·) hlater
    | keepAlive => exact ih
    | failure code message =>
      have harrivals :
          (Attempt.opened (⟨delay, .failure code message⟩ :: rest) ending).arrivals = [] := rfl
      rw [harrivals, List.append_nil]
      rfl

/-- **What a client has still to send.** -/
def due (metadata : Nat → Metadata) (before : List Milestone) (c : StreamClient) : List Payload :=
  match c.phase with
  | .calling | .waiting => Stream.sendsFrom metadata c.number before c.attempts
  | .receiving called relay => sendsOn metadata c.number c.attempts called before relay.events
  | .stopped => []

/-- **A client on its course**: what it has sent and what is due make up the whole. -/
structure OnCourse (metadata : Nat → Metadata) (first ceiling : Nat) (whole : List Payload)
    (c : StreamClient) : Prop where
  due : ∃ before, c.backoff.IsReconnect first ceiling before ∧ c.sent ++ c.due metadata before = whole
  sound : ∀ called relay, c.phase = .receiving called relay → relay.Sound

/-- The end of an attempt. -/
theorem onCourse_conclude (hb : c.backoff.IsReconnect first ceiling before) (how : AttemptEnd)
    (hsent : c.sent ++ Stream.sendsAfter metadata c.number before c.attempts (some how) = whole) :
    (c.conclude how).OnCourse metadata first ceiling whole := by
  refine ⟨⟨before ++ [.ended], hb.advance, ?_⟩, fun _ _ h => nomatch h⟩
  rw [← hsent, Stream.sendsAfter, ← List.append_assoc]
  refine congrArg (c.sent ++ · ++ _) ?_
  by_cases hended : EndedSince before
  · rw [if_pos hended, if_neg (hb.isSilent_iff.not.mpr (not_not_intro hended))]
  · rw [if_neg hended, if_pos (hb.isSilent_iff.mpr hended)]

/-- A call. -/
theorem OnCourse.call (h : c.OnCourse metadata first ceiling whole) (hphase : c.phase = .calling) :
    (c.call metadata).OnCourse metadata first ceiling whole := by
  obtain ⟨before, hb, hsent⟩ := h.due
  simp only [StreamClient.due, hphase] at hsent
  obtain ⟨phase, attempts, number, backoff, sent⟩ := c
  cases attempts with
  | nil => exact ⟨⟨before, hb, hsent⟩, (Relay.sound_ofStream [] none).of_receiving⟩
  | cons a rest =>
    rw [Stream.sendsFrom_cons] at hsent
    cases a with
    | refused failure =>
      have harrivals : (Attempt.refused failure).arrivals = [] := rfl
      rw [harrivals, List.append_nil] at hsent
      exact @onCourse_conclude _ _ _ _ _ ⟨phase, rest, number + 1, backoff, sent⟩ hb _ hsent
    | opened items ending =>
      rw [← sendsOn_upcoming] at hsent
      exact ⟨⟨before, hb, hsent⟩, (Relay.sound_ofStream items ending).of_receiving⟩

/-- An event that is taken. -/
theorem OnCourse.receive (h : c.OnCourse metadata first ceiling whole) {relay : Relay}
    {event : StreamEvent} {rest : List StreamEvent} (hphase : c.phase = .receiving called relay)
    (hqueue : relay.queue = event :: rest) :
    (c.receive called { relay with queue := rest } event).OnCourse metadata first ceiling whole := by
  obtain ⟨before, hb, hsent⟩ := h.due
  simp only [StreamClient.due, hphase] at hsent
  rw [Relay.events_of_queue hqueue] at hsent
  have hsound := fun hevent => (h.sound called relay hphase).of_queue hqueue hevent
  cases event with
  | configuration text context =>
    refine ⟨⟨before ++ [.configuration], hb.reset, ?_⟩, (hsound rfl).of_receiving⟩
    rw [← hsent, sendsOn]
    exact List.append_assoc c.sent [_] _
  | keepAlive => exact ⟨⟨before, hb, hsent⟩, (hsound rfl).of_receiving⟩
  | ended how => exact onCourse_conclude hb how hsent

/-- A move of the reader. -/
theorem OnCourse.onRelay (h : c.OnCourse metadata first ceiling whole) {move : Relay → Relay}
    (hevents : ∀ relay, (move relay).events = relay.events)
    (hsound : ∀ relay, relay.Sound → (move relay).Sound) :
    (c.onRelay move).OnCourse metadata first ceiling whole := by
  rcases hphase : c.phase with - | ⟨called, relay⟩ | - | -
  case receiving =>
    obtain ⟨before, hb, hsent⟩ := h.due
    simp only [StreamClient.due, hphase] at hsent
    rw [StreamClient.onRelay, hphase]
    refine ⟨⟨before, hb, ?_⟩, (hsound relay (h.sound called relay hphase)).of_receiving⟩
    simpa only [StreamClient.due, hevents] using hsent
  all_goals
    rw [StreamClient.onRelay, hphase]
    exact h

/-- The client goes on. -/
theorem OnCourse.proceed (h : c.OnCourse metadata first ceiling whole) :
    (c.proceed metadata).OnCourse metadata first ceiling whole := by
  rcases hphase : c.phase with - | ⟨called, relay⟩ | - | -
  case calling =>
    rw [StreamClient.proceed, hphase]
    exact h.call hphase
  case receiving =>
    rw [StreamClient.proceed, hphase]
    obtain ⟨-, htake⟩ | ⟨event, rest, hqueue, htake⟩ := (h.sound called relay hphase).take?_cases
    · simpa only [htake] using h
    · simpa only [htake] using h.receive hphase hqueue
  case waiting =>
    obtain ⟨before, hb, hsent⟩ := h.due
    simp only [StreamClient.due, hphase] at hsent
    rw [StreamClient.proceed, hphase]
    exact ⟨⟨before, hb, hsent⟩, fun _ _ hreceiving => nomatch hreceiving⟩
  case stopped =>
    rw [StreamClient.proceed, hphase]
    exact h

/-- **A turn keeps a client on its course**, unless it stops it. -/
theorem OnCourse.turn (h : c.OnCourse metadata first ceiling whole) {t : ClientTurn} (ht : t ≠ .stop) :
    (c.turn metadata t).OnCourse metadata first ceiling whole := by
  cases t with
  | read => exact h.onRelay Relay.events_read fun _ => Relay.Sound.read
  | enqueue => exact h.onRelay Relay.events_enqueue fun _ => Relay.Sound.enqueue
  | proceed => exact h.proceed
  | stop => exact absurd rfl ht

/-- A client that is stopped does nothing more. -/
theorem foldl_of_stopped (hphase : c.phase = .stopped) (turns : List ClientTurn) :
    turns.foldl (turn metadata) c = c := by
  obtain ⟨phase, attempts, number, backoff, sent⟩ := c
  cases hphase
  induction turns with
  | nil => rfl
  | cons t rest ih => cases t <;> exact ih

theorem OnCourse.sent_prefix (h : c.OnCourse metadata first ceiling whole) : c.sent <+: whole := by
  obtain ⟨before, -, hsent⟩ := h.due
  exact ⟨_, hsent⟩

/-- **In every row of turns what is sent is a beginning of the whole.** -/
theorem OnCourse.prefix_foldl (h : c.OnCourse metadata first ceiling whole)
    (turns : List ClientTurn) : (turns.foldl (StreamClient.turn metadata) c).sent <+: whole := by
  induction turns generalizing c with
  | nil => exact h.sent_prefix
  | cons t rest ih =>
    by_cases ht : t = .stop
    · -- A stop leaves the course, but what was sent stays.
      rw [ht, List.foldl_cons, foldl_of_stopped rfl]
      exact h.sent_prefix
    · exact ih (h.turn ht)

/-! ### Turns are finite in number -/

/-- How many turns attempts take, at most: an item and the end of a stream are read, put into the queue
and taken, and there are the end, the wait and the call. -/
def turnsFor : List Attempt → Nat
  | [] => 0
  | a :: rest => 3 * a.items.length + 6 + turnsFor rest

/-- **How many turns a client has still to take**, at most. -/
def weight (c : StreamClient) : Nat :=
  match c.phase with
  | .calling => turnsFor c.attempts + 1
  | .waiting => turnsFor c.attempts + 2
  | .receiving _ relay =>
    relay.weight + if relay.events.any (·.isEnd) then turnsFor c.attempts + 3 else 0
  | .stopped => 0

theorem weight_call (hphase : c.phase = .calling) : (c.call metadata).weight < c.weight := by
  obtain ⟨phase, attempts, number, backoff, sent⟩ := c
  cases hphase
  cases attempts with
  | nil => exact Nat.zero_lt_one
  | cons a rest =>
    cases a with
    | refused failure =>
      show turnsFor rest + 2 < (3 * 0 + 6 + turnsFor rest) + 1
      omega
    | opened items ending =>
      have hlength : (Attempt.opened items ending).items.length = items.length := List.length_map _
      have hcoming : (Relay.ofStream items ending).weight = 3 * (items.length + ending.isSome.toNat) := by
        simp [Relay.weight, Relay.ofStream]
      have hends := ending.isSome.toNat_le
      show (Relay.ofStream items ending).weight +
          (if (Relay.ofStream items ending).events.any (·.isEnd) then turnsFor rest + 3 else 0) <
        (3 * (Attempt.opened items ending).items.length + 6 + turnsFor rest) + 1
      rw [hlength, hcoming]
      split <;> omega

theorem weight_receive {relay : Relay} {event : StreamEvent} {rest : List StreamEvent}
    (hphase : c.phase = .receiving called relay) (hqueue : relay.queue = event :: rest) :
    (c.receive called { relay with queue := rest } event).weight < c.weight := by
  have hweight := Relay.weight_of_queue hqueue
  have hevents := Relay.events_of_queue hqueue
  obtain ⟨phase, attempts, number, backoff, sent⟩ := c
  cases hphase
  simp only [weight]
  rw [hweight, hevents, List.any_cons]
  cases event with
  | ended how =>
    show turnsFor attempts + 2 < _
    simp only [StreamEvent.isEnd, Bool.true_or, if_true]
    omega
  | _ =>
    simp only [receive, StreamEvent.isEnd, Bool.false_or]
    exact Nat.add_lt_add_right (Nat.lt_succ_self _) _

/-- A move of the reader. -/
theorem weight_onRelay {move : Relay → Relay} {relay : Relay} (hphase : c.phase = .receiving called relay)
    (hevents : (move relay).events = relay.events) (hmove : (move relay).weight < relay.weight) :
    (c.onRelay move).weight < c.weight := by
  simp only [onRelay, hphase, weight, hevents]
  exact Nat.add_lt_add_right hmove _

theorem onRelay_eq_or_lt {move : Relay → Relay} (hevents : ∀ relay, (move relay).events = relay.events)
    (hmove : ∀ relay, move relay = relay ∨ (move relay).weight < relay.weight) (c : StreamClient) :
    c.onRelay move = c ∨ (c.onRelay move).weight < c.weight := by
  rcases hphase : c.phase with - | ⟨called, relay⟩ | - | -
  case receiving =>
    rcases hmove relay with h | h
    · refine .inl ?_
      simp only [onRelay, hphase, h]
      rw [← hphase]
    · exact .inr (weight_onRelay hphase (hevents relay) h)
  all_goals
    refine .inl ?_
    simp only [onRelay, hphase]

/-- **A turn changes nothing, or it is one of those that are left.** -/
theorem OnCourse.turn_eq_or_lt (h : c.OnCourse metadata first ceiling whole) {t : ClientTurn}
    (ht : t ≠ .stop) : c.turn metadata t = c ∨ (c.turn metadata t).weight < c.weight := by
  cases t with
  | read => exact onRelay_eq_or_lt Relay.events_read Relay.read_eq_or_lt c
  | enqueue => exact onRelay_eq_or_lt Relay.events_enqueue Relay.enqueue_eq_or_lt c
  | stop => exact absurd rfl ht
  | proceed =>
    rw [StreamClient.turn, StreamClient.proceed]
    rcases hphase : c.phase with - | ⟨called, relay⟩ | - | -
    · exact .inr (weight_call hphase)
    · obtain ⟨-, htake⟩ | ⟨event, rest, hqueue, htake⟩ := (h.sound called relay hphase).take?_cases
      · exact .inl (by simp only [htake])
      · exact .inr (by simpa only [htake] using weight_receive hphase hqueue)
    · exact .inr (by simp only [weight, hphase]; omega)
    · exact .inl rfl

/-- **As long as there are turns left, one of them can be taken.** -/
theorem OnCourse.exists_turn (h : c.OnCourse metadata first ceiling whole) (hweight : 0 < c.weight) :
    ∃ t, t ≠ .stop ∧ (c.turn metadata t).weight < c.weight := by
  rcases hphase : c.phase with - | ⟨called, relay⟩ | - | -
  · refine ⟨.proceed, by decide, ?_⟩
    simpa only [StreamClient.turn, StreamClient.proceed, hphase] using weight_call hphase
  · have hrelay : 0 < relay.weight := by
      refine Nat.pos_of_ne_zero fun hzero => ?_
      rw [weight, hphase] at hweight
      simp [hzero, Relay.events_of_weight hzero] at hweight
    obtain hqueue | hmove | hmove := relay.exists_move hrelay
    · obtain ⟨hnil, -⟩ | ⟨event, rest, hqueue, htake⟩ := (h.sound called relay hphase).take?_cases
      · exact absurd hnil hqueue
      · refine ⟨.proceed, by decide, ?_⟩
        simpa only [StreamClient.turn, StreamClient.proceed, hphase, htake] using
          weight_receive hphase hqueue
    · exact ⟨.enqueue, by decide, weight_onRelay hphase relay.events_enqueue hmove⟩
    · exact ⟨.read, by decide, weight_onRelay hphase relay.events_read hmove⟩
  · refine ⟨.proceed, by decide, ?_⟩
    simp only [StreamClient.turn, StreamClient.proceed, weight, hphase]
    omega
  · simp [weight, hphase] at hweight

/-- With no turns left everything was sent. -/
theorem OnCourse.sent_of_weight (h : c.OnCourse metadata first ceiling whole) (hweight : c.weight = 0) :
    c.sent = whole := by
  obtain ⟨before, -, hsent⟩ := h.due
  have hdue : c.due metadata before = [] := by
    rcases hphase : c.phase with - | ⟨called, relay⟩ | - | - <;>
      simp only [weight, hphase] at hweight <;> simp only [StreamClient.due, hphase]
    case receiving =>
      rw [Relay.events_of_weight (Nat.eq_zero_of_add_eq_zero_right hweight)]
      rfl
    all_goals omega
  rw [← hsent, hdue, List.append_nil]

/-! ### Rounds -/

/-- **A round**: reader and client get their turns, in whatever order and how often, and none stops. -/
def IsRound (turns : List ClientTurn) : Prop := ∀ t, t ∈ turns ↔ t ≠ .stop

/-- Turns of reader and client. -/
theorem OnCourse.foldl (h : c.OnCourse metadata first ceiling whole) {turns : List ClientTurn}
    (hturns : .stop ∉ turns) :
    (turns.foldl (StreamClient.turn metadata) c).OnCourse metadata first ceiling whole ∧
      (turns.foldl (StreamClient.turn metadata) c).weight ≤ c.weight := by
  induction turns generalizing c with
  | nil => exact ⟨h, Nat.le_refl _⟩
  | cons t rest ih =>
    rw [List.mem_cons, not_or] at hturns
    obtain ⟨hcourse, hle⟩ := ih (h.turn (Ne.symm hturns.1)) hturns.2
    refine ⟨hcourse, hle.trans ?_⟩
    rcases h.turn_eq_or_lt (Ne.symm hturns.1) with heq | hlt
    · rw [heq]
    · exact hlt.le

/-- **A turn that is left is taken**, or another one before it. -/
theorem OnCourse.weight_foldl_lt (h : c.OnCourse metadata first ceiling whole) {t : ClientTurn}
    (ht : (c.turn metadata t).weight < c.weight) {turns : List ClientTurn} (hmem : t ∈ turns)
    (hturns : .stop ∉ turns) : (turns.foldl (StreamClient.turn metadata) c).weight < c.weight := by
  induction turns with
  | nil => cases hmem
  | cons u rest ih =>
    rw [List.mem_cons, not_or] at hturns
    have hu : u ≠ .stop := Ne.symm hturns.1
    rcases h.turn_eq_or_lt hu with heq | hlt
    · have hrest : t ∈ rest := by
        rcases List.mem_cons.mp hmem with rfl | hrest
        · rw [heq] at ht
          exact absurd ht (lt_irrefl _)
        · exact hrest
      rw [List.foldl_cons, heq]
      exact ih hrest hturns.2
    · exact ((h.turn hu).foldl hturns.2).2.trans_lt hlt

/-- **After enough rounds everything was sent.** -/
theorem OnCourse.sent_of_rounds (h : c.OnCourse metadata first ceiling whole)
    {rounds : List (List ClientTurn)} (hrounds : ∀ round ∈ rounds, IsRound round)
    (henough : c.weight ≤ rounds.length) :
    (rounds.flatten.foldl (StreamClient.turn metadata) c).sent = whole := by
  induction rounds generalizing c with
  | nil => exact h.sent_of_weight (Nat.le_zero.mp henough)
  | cons round rest ih =>
    obtain ⟨hround, hrest⟩ := List.forall_mem_cons.mp hrounds
    have hstop : .stop ∉ round := fun hmem => (hround _).mp hmem rfl
    obtain ⟨hcourse, hle⟩ := h.foldl hstop
    rw [List.flatten_cons, List.foldl_append]
    refine ih hcourse hrest ?_
    rcases Nat.eq_zero_or_pos c.weight with hzero | hpos
    · omega
    · obtain ⟨t, ht, hlt⟩ := h.exists_turn hpos
      have hless := h.weight_foldl_lt hlt ((hround t).mpr ht) hstop
      rw [List.length_cons] at henough
      omega

/-- A client starts on its course. -/
theorem onCourse_start (s : Settings) (service : Service) :
    (start s service).OnCourse (Stream.calledMetadata s service) s.retryBackoff s.retryBackoffMax
      (Stream.sendsFrom (Stream.calledMetadata s service) 0 [] service.attempts) :=
  ⟨⟨[], Backoff.isReconnect_start, rfl⟩, fun _ _ h => nomatch h⟩

end StreamClient

/-! ## The law -/

namespace Stream

/-- **A configuration that came**, and in which attempt. -/
structure Arrival where
  number : Nat
  text : String
  /-- Its own annotations. -/
  context : Option Metadata

/-- **The configurations that came**: those of the attempts that are made, in order. -/
def arrived (attempts : List Attempt) : List Arrival :=
  (made attempts).zipIdx.flatMap fun e => e.1.configurations.map fun c => ⟨e.2, c.1, c.2⟩

/-- **The annotations due to a configuration** that came in an attempt: its own, or else what the same
attempt got when it called for some. -/
inductive Labels (s : Settings) (service : Service) (number : Nat) : Option Metadata → Metadata → Prop
  | own (context : Metadata) : Labels s service number (some context) context
  | called {metadata : Metadata} (hasked : s.syncMetadataDisabled = false)
      (hanswer : service.metadata number = some metadata) : Labels s service number none metadata
  | failed (hasked : s.syncMetadataDisabled = false) (hanswer : service.metadata number = none) :
      Labels s service number none ∅
  | disabled (h : s.syncMetadataDisabled = true) : Labels s service number none ∅

/-- **What is due to a configuration that came**: a payload with its text and the annotations due to it. -/
def IsDue (s : Settings) (service : Service) (c : Arrival) (payload : Payload) : Prop :=
  ∃ metadata, Labels s service c.number c.context metadata ∧ payload = .data c.text metadata

variable {s : Settings} {service : Service}

theorem Labels.unique {number : Nat} {context : Option Metadata} {metadata metadata' : Metadata}
    (h : Labels s service number context metadata) (h' : Labels s service number context metadata') :
    metadata = metadata' := by
  cases h <;> cases h' <;> simp_all

/-- Nothing else is due to it. -/
theorem rightUnique_isDue : Relator.RightUnique (IsDue s service) := by
  rintro c - - ⟨metadata, hlabels, rfl⟩ ⟨metadata', hlabels', rfl⟩
  rw [hlabels.unique hlabels']

theorem labels_calledMetadata (s : Settings) (service : Service) (number : Nat)
    (context : Option Metadata) :
    Labels s service number context (context.getD (calledMetadata s service number)) := by
  cases context with
  | some context => exact .own context
  | none =>
    rw [Option.getD_none, calledMetadata]
    cases hdisabled : s.syncMetadataDisabled with
    | true => exact .disabled hdisabled
    | false =>
      cases hanswer : service.metadata number with
      | none => exact .failed hdisabled hanswer
      | some metadata => exact .called hdisabled hanswer

/-- **One payload is sent for each configuration that came**, the one that is due to it. -/
theorem forall₂_isDue (s : Settings) (service : Service) (draw : Nat → Nat) (now : Nat) :
    List.Forall₂ (IsDue s service) (arrived service.attempts)
      (((payloads (run s service draw now)).map (·.2)).filter (·.isData)) := by
  have hsent : ((payloads (run s service draw now)).map (·.2)).filter (·.isData) =
      (arrived service.attempts).map fun c =>
        .data c.text (c.context.getD (calledMetadata s service c.number)) := by
    rw [map_snd_payloads_run, filter_isData_sendsFrom, arrived, List.map_flatMap]
    refine List.flatMap_congr fun e _ => ?_
    rw [Attempt.deliveries, Nat.zero_add, List.map_map]
    rfl
  rw [hsent, List.forall₂_map_right_iff, List.forall₂_same]
  exact fun c _ => ⟨_, labels_calledMetadata s service c.number c.context, rfl⟩

/-- **The law of deliveries.**  The configurations that are sent are those that came, one for each and in
order, with the text and the annotations due to each.  Turn by turn a client sends the same: whatever the
turns and wherever it is stopped, it has sent a beginning of it, and after enough rounds without a stop
all of it; a source that is stopped at some time has sent a beginning, too. -/
theorem deliveries_in_order (s : Settings) (service : Service) (draw : Nat → Nat) (now : Nat) :
    List.Forall₂ (IsDue s service) (arrived service.attempts)
        (((payloads (run s service draw now)).map (·.2)).filter (·.isData)) ∧
      (∀ turns, (StreamClient.run s service turns).sent <+:
        (payloads (run s service draw now)).map (·.2)) ∧
      (∃ enough, ∀ rounds : List (List ClientTurn), (∀ round ∈ rounds, StreamClient.IsRound round) →
        enough ≤ rounds.length → (StreamClient.run s service rounds.flatten).sent =
          (payloads (run s service draw now)).map (·.2)) ∧
      ∀ time, ((StreamSource.started s service now).stop time).sent draw <+:
        payloads (run s service draw now) := by
  have hstart := StreamClient.onCourse_start s service
  rw [← map_snd_payloads_run s service draw now] at hstart
  refine ⟨forall₂_isDue s service draw now, hstart.prefix_foldl,
    ⟨_, fun rounds => hstart.sent_of_rounds⟩, fun time => ?_⟩
  rw [StreamSource.sent, StreamSource.acts_stop]
  exact (List.takeWhile_prefix _).filterMap _

/-- A service that says where its configurations come from, but not in its last stream. -/
def annotating : Service where
  metadata number := if number = 0 then some (KeyMap.ofList [("from", .text "call")]) else none
  attempts := [
    .opened [⟨0, .configuration "a" none⟩,
      ⟨0, .configuration "b" (some (KeyMap.ofList [("from", .text "item")]))⟩,
      ⟨0, .configuration "c" none⟩, ⟨0, .failure .unavailable "away"⟩,
      ⟨0, .configuration "lost" none⟩] none,
    .refused .closed,
    .opened [⟨0, .configuration "d" none⟩] none]

/-- Its configurations are sent with what was called for in their attempt, or with their own annotations,
or with none. -/
theorem deliveries_in_order_annotating :
    ((payloads (run default annotating (fun _ => 0) 0)).map (·.2)).filter (·.isData) =
        [.data "a" (KeyMap.ofList [("from", .text "call")]),
          .data "b" (KeyMap.ofList [("from", .text "item")]),
          .data "c" (KeyMap.ofList [("from", .text "call")]), .data "d" ∅] ∧
      ((payloads (run { (default : Settings) with syncMetadataDisabled := true } annotating
          (fun _ => 0) 0)).map (·.2)).filter (·.isData) =
        [.data "a" ∅, .data "b" (KeyMap.ofList [("from", .text "item")]), .data "c" ∅,
          .data "d" ∅] := by
  constructor
  · refine rightUnique_isDue.forall₂ (deliveries_in_order default annotating (fun _ => 0) 0).1 ?_
    exact .cons ⟨_, .called rfl rfl, rfl⟩ (.cons ⟨_, .own _, rfl⟩ (.cons ⟨_, .called rfl rfl, rfl⟩
      (.cons ⟨_, .failed rfl rfl, rfl⟩ .nil)))
  · refine rightUnique_isDue.forall₂ (deliveries_in_order _ annotating (fun _ => 0) 0).1 ?_
    exact .cons ⟨_, .disabled rfl, rfl⟩ (.cons ⟨_, .own _, rfl⟩ (.cons ⟨_, .disabled rfl, rfl⟩
      (.cons ⟨_, .disabled rfl, rfl⟩ .nil)))

end Stream

/-- A round, and a client that is stopped after four turns of its second stream. -/
example : StreamClient.IsRound [.read, .enqueue, .proceed] ∧
    (StreamClient.run default ⟨fun _ => none, [.opened [⟨0, .configuration "a" none⟩] (some 0),
        .opened [⟨0, .configuration "b" none⟩, ⟨0, .configuration "c" none⟩] none]⟩
      [.proceed, .read, .enqueue, .read, .proceed, .enqueue, .proceed, .proceed,
        .proceed, .read, .enqueue, .read, .proceed, .stop, .enqueue, .proceed]).sent =
      [.data "a" ∅, .data "b" ∅] :=
  ⟨fun t => by cases t <;> decide, rfl⟩

end FeatureFlags
