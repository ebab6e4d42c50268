import FeatureFlags.Proofs.Provider.Answer
import FeatureFlags.Proofs.Provider.Herald
import FeatureFlags.Proofs.Sync.Channel
import FeatureFlags.Provider.Lifecycle

/-!
# Proofs/Provider/Lifecycle — the law of a resolver from its making to its end

Whatever the parts of a resolver do in whatever order, `init` starts the connector once at most, and once
a call of `shutdown` has returned nothing is sent any more (`Lifecycle.Lawful`).  Each turn keeps what the
law rests on (`Sound.turn`): a call of `shutdown` cancels first, the worker is gone before the other parts
are waited for, and these are seen to once.

The consumer and the forwarder may outlive the call.  What they still do is to finish: the consumer takes
to the store what was sent before, and the forwarder tells of what was announced before or is announced
meanwhile (`Yields`).  Where both had ended nothing changes any more (`IsOver.run`).
-/

namespace FeatureFlags

namespace Lifecycle

variable {parser : Parser} {l m : Lifecycle} {t : Turn} {turns : List Turn}

theorem run_append (first second : List Turn) :
    l.run parser (first ++ second) = (l.run parser first).run parser second := List.foldl_append

theorem run_concat (turns : List Turn) (last : Turn) :
    l.run parser (turns ++ [last]) = (l.run parser turns).turn parser last := by
  rw [run_append]
  rfl

/-! ## What a turn keeps -/

/-- The table of the last delivery taken that gave one. -/
def lastTable? (parser : Parser) (l : Lifecycle) : Option FlagSet :=
  (l.taken.filterMap (Payload.table? parser)).getLast?

/-- **The table in force** is that of the last delivery taken that gave one. -/
def IsInForce (parser : Parser) (l : Lifecycle) : Prop :=
  Outlet.Holds l.herald.store (l.lastTable? parser)

/-- **What a part does**: it starts nothing and calls nothing. -/
structure Keeps (parser : Parser) (l m : Lifecycle) : Prop where
  isCancelled : m.isCancelled = l.isCancelled
  wasStarted : m.wasStarted = l.wasStarted
  hasTasks : m.hasTasks = l.hasTasks
  shutdown : m.shutdown = l.shutdown
  hasReturned : m.hasReturned = l.hasReturned
  worker : m.hasWorker = true → l.hasWorker = true
  inForce : l.IsInForce parser → m.IsInForce parser

theorem Keeps.refl (l : Lifecycle) : Keeps parser l l :=
  ⟨rfl, rfl, rfl, rfl, rfl, id, id⟩

theorem keeps_send (payload : Payload) : Keeps parser l (l.send payload) := by
  rw [send]
  split
  · exact ⟨rfl, rfl, rfl, rfl, rfl, id, id⟩
  · exact .refl l

theorem keeps_stopWorker : Keeps parser l l.stopWorker := by
  rw [stopWorker]
  split
  · exact ⟨rfl, rfl, rfl, rfl, rfl, nofun, id⟩
  · exact .refl l

theorem keeps_stopConsumer : Keeps parser l l.stopConsumer := by
  rw [stopConsumer]
  split
  · exact ⟨rfl, rfl, rfl, rfl, rfl, id, id⟩
  · exact .refl l

theorem keeps_stopForwarder : Keeps parser l l.stopForwarder := by
  rw [stopForwarder]
  split
  · exact ⟨rfl, rfl, rfl, rfl, rfl, id, id⟩
  · exact .refl l

theorem keeps_take : Keeps parser l l.take := by
  rw [take]
  split
  · split
    · exact ⟨rfl, rfl, rfl, rfl, rfl, id, id⟩
    · exact .refl l
    · exact keeps_stopConsumer
  · exact .refl l

theorem keeps_apply : Keeps parser l (l.apply parser) := by
  rw [apply]
  split
  · next payload _ =>
    refine ⟨rfl, rfl, rfl, rfl, rfl, id, fun h => ?_⟩
    have hlast : ((l.taken ++ [payload]).filterMap (Payload.table? parser)).getLast? =
        (payload.table? parser).or (l.lastTable? parser) := by
      rw [List.filterMap_append, List.getLast?_append, lastTable?]
      cases hgives : payload.table? parser <;> simp [hgives]
    rw [IsInForce, lastTable?, hlast]
    exact Outlet.Holds.deliver (o := ⟨l.herald.store, l.herald.channel⟩) h payload
  · exact .refl l

theorem keeps_hear : Keeps parser l l.hear := by
  rw [hear]
  split
  · exact ⟨rfl, rfl, rfl, rfl, rfl, id, id⟩
  · exact .refl l

theorem keeps_tell : Keeps parser l l.tell := by
  rw [tell]
  split
  · exact ⟨rfl, rfl, rfl, rfl, rfl, id, id⟩
  · exact ⟨rfl, rfl, rfl, rfl, rfl, id, id⟩
  · exact .refl l

/-- **Every turn of a part** is one that starts nothing and calls nothing. -/
theorem keeps_turn (hinit : t ≠ .init) (hshutdown : t ≠ .shutdown) :
    Keeps parser l (l.turn parser t) := by
  cases t with
  | init => exact absurd rfl hinit
  | shutdown => exact absurd rfl hshutdown
  | send payload => exact keeps_send payload
  | take => exact keeps_take
  | apply => exact keeps_apply
  | hear => exact keeps_hear
  | tell => exact keeps_tell
  | endConsumer =>
    rw [turn]
    split
    · exact keeps_stopConsumer
    · exact .refl l
  | endForwarder =>
    rw [turn]
    split
    · exact keeps_stopForwarder
    · exact .refl l

/-- **The resolver is shut**: nothing is sent, and no call has anything to see to. -/
structure IsShut (l : Lifecycle) : Prop where
  cancelled : l.isCancelled = true
  worker : ¬ l.hasWorker = true
  tasks : ¬ l.hasTasks = true
  stage : l.shutdown ≠ .draining

theorem Keeps.isShut (h : Keeps parser l m) (hshut : l.IsShut) : m.IsShut where
  cancelled := h.isCancelled.trans hshut.cancelled
  worker := hshut.worker ∘ h.worker
  tasks := h.hasTasks ▸ hshut.tasks
  stage := h.shutdown ▸ hshut.stage

/-- **What holds between turns.** -/
structure Sound (parser : Parser) (l : Lifecycle) : Prop where
  calling : l.shutdown ≠ .idle → l.isCancelled = true
  disconnected : l.shutdown = .disconnected → ¬ l.hasWorker = true
  draining : l.shutdown = .draining → ¬ l.hasWorker = true ∧ ¬ l.hasTasks = true
  returned : l.hasReturned = true → l.IsShut
  inForce : l.IsInForce parser

theorem sound_fresh : Sound parser fresh where
  calling h := absurd rfl h
  disconnected := nofun
  draining := nofun
  returned := nofun
  inForce := ⟨rfl, rfl⟩

theorem Sound.of_keeps (h : Sound parser l) (hkeeps : Keeps parser l m) : Sound parser m where
  calling hcalling := hkeeps.isCancelled.trans (h.calling (hkeeps.shutdown ▸ hcalling))
  disconnected hstage := h.disconnected (hkeeps.shutdown ▸ hstage) ∘ hkeeps.worker
  draining hstage := by
    obtain ⟨hworker, htasks⟩ := h.draining (hkeeps.shutdown ▸ hstage)
    exact ⟨hworker ∘ hkeeps.worker, hkeeps.hasTasks ▸ htasks⟩
  returned hreturned := hkeeps.isShut (h.returned (hkeeps.hasReturned ▸ hreturned))
  inForce := hkeeps.inForce h.inForce

theorem refusal?_of_isCancelled (h : l.isCancelled = true) : l.refusal? = some .shutDown := by
  rw [refusal?, if_pos h]

theorem refusal?_eq_none_iff : l.refusal? = none ↔ l.isCancelled = false ∧ l.wasStarted = false := by
  rw [refusal?]
  cases l.isCancelled <;> cases l.wasStarted <;> simp

theorem init_of_isCancelled (h : l.isCancelled = true) : l.init = l := by
  rw [init, refusal?_of_isCancelled h]
  rfl

/-- A start comes before any call of `shutdown`. -/
theorem Sound.init (h : Sound parser l) : Sound parser l.init := by
  by_cases hcancelled : l.isCancelled = true
  · rwa [init_of_isCancelled hcancelled]
  · rw [Lifecycle.init]
    split
    · exact h
    · exact {
        calling := fun hcalling => absurd (h.calling hcalling) hcancelled
        disconnected := fun hstage => absurd (h.calling (hstage ▸ nofun)) hcancelled
        draining := fun hstage => absurd (h.calling (hstage ▸ nofun)) hcancelled
        returned := fun hreturned => absurd (h.returned hreturned).cancelled hcancelled
        inForce := h.inForce }

theorem stopWorker_hasWorker : ¬ l.stopWorker.hasWorker = true := by
  rw [stopWorker]
  split
  · exact nofun
  · assumption

/-! ### The steps of a call of `shutdown` -/

/-- It begins, … -/
theorem Sound.cancel (h : Sound parser l) :
    Sound parser { l with isCancelled := true, shutdown := .cancelled } :=
  { h with
    calling := fun _ => rfl
    disconnected := nofun
    draining := nofun
    returned := fun hreturned => { h.returned hreturned with cancelled := rfl, stage := nofun } }

/-- … the worker stops, … -/
theorem Sound.disconnect (h : Sound parser l) (hstage : l.shutdown = .cancelled) :
    Sound parser { l.stopWorker with shutdown := .disconnected } where
  calling _ := (@keeps_stopWorker parser l).isCancelled.trans (h.calling (hstage ▸ nofun))
  disconnected _ := stopWorker_hasWorker
  draining := nofun
  returned hreturned :=
    have hkeeps := @keeps_stopWorker parser l
    { hkeeps.isShut (h.returned (hkeeps.hasReturned ▸ hreturned)) with stage := nofun }
  inForce := keeps_stopWorker.inForce h.inForce

/-- … the time of the consumer is over, … -/
theorem Sound.abandon (h : Sound parser l) (hstage : l.shutdown = .disconnected)
    (htasks : l.hasTasks = true) :
    Sound parser { l.stopConsumer with shutdown := .draining, hasTasks := false } where
  calling _ := (@keeps_stopConsumer parser l).isCancelled.trans (h.calling (hstage ▸ nofun))
  disconnected := nofun
  draining _ := ⟨h.disconnected hstage ∘ (@keeps_stopConsumer parser l).worker, nofun⟩
  returned hreturned :=
    absurd htasks (h.returned ((@keeps_stopConsumer parser l).hasReturned ▸ hreturned)).tasks
  inForce := keeps_stopConsumer.inForce h.inForce

/-- … and it returns, where the resolver is shut. -/
theorem Sound.finish (h : Sound parser l) (hshut : { l with shutdown := .idle }.IsShut) :
    Sound parser { l with shutdown := .idle, hasReturned := true } where
  calling := absurd rfl
  disconnected := nofun
  draining := nofun
  returned _ := ⟨hshut.cancelled, hshut.worker, hshut.tasks, nofun⟩
  inForce := h.inForce

theorem Sound.shutdownStep (h : Sound parser l) : Sound parser l.shutdownStep := by
  rw [Lifecycle.shutdownStep]
  split
  · exact h.cancel
  · next hstage => exact h.disconnect hstage
  · next hstage =>
    split
    · next htasks => exact h.abandon hstage htasks
    · next htasks => exact h.finish ⟨h.calling (hstage ▸ nofun), h.disconnected hstage, htasks, nofun⟩
  · next hstage =>
    have hkeeps := @keeps_stopForwarder parser l
    obtain ⟨hworker, htasks⟩ := h.draining hstage
    exact (h.of_keeps hkeeps).finish ⟨hkeeps.isCancelled.trans (h.calling (hstage ▸ nofun)),
      hworker ∘ hkeeps.worker, hkeeps.hasTasks ▸ htasks, nofun⟩

theorem Sound.turn (h : Sound parser l) (t : Turn) : Sound parser (l.turn parser t) := by
  by_cases hinit : t = .init
  · exact hinit ▸ h.init
  · by_cases hshutdown : t = .shutdown
    · exact hshutdown ▸ h.shutdownStep
    · exact h.of_keeps (keeps_turn hinit hshutdown)

theorem sound_run (turns : List Turn) : Sound parser (fresh.run parser turns) := by
  induction turns using List.reverseRecOn with
  | nil => exact sound_fresh
  | append_singleton turns last ih => rw [run_concat]; exact ih.turn last

/-! ## What a run says of its calls -/

theorem isCancelled_shutdownStep (h : Sound parser l) : l.shutdownStep.isCancelled = true := by
  rw [shutdownStep]
  split
  · rfl
  · next hstage => exact (@keeps_stopWorker parser l).isCancelled.trans (h.calling (hstage ▸ nofun))
  · next hstage =>
    have hcancelled := h.calling (hstage ▸ nofun)
    split
    · exact (@keeps_stopConsumer parser l).isCancelled.trans hcancelled
    · exact hcancelled
  · next hstage => exact (@keeps_stopForwarder parser l).isCancelled.trans (h.calling (hstage ▸ nofun))

theorem wasStarted_shutdownStep : l.shutdownStep.wasStarted = l.wasStarted := by
  rw [shutdownStep]
  split
  · rfl
  · exact (@keeps_stopWorker default l).wasStarted
  · split
    · exact (@keeps_stopConsumer default l).wasStarted
    · rfl
  · exact (@keeps_stopForwarder default l).wasStarted

theorem isCancelled_turn (h : Sound parser l) :
    (l.turn parser t).isCancelled = true ↔ l.isCancelled = true ∨ t = .shutdown := by
  by_cases hshutdown : t = .shutdown
  · subst hshutdown
    exact iff_of_true (isCancelled_shutdownStep h) (.inr rfl)
  · rw [or_iff_left hshutdown]
    by_cases hinit : t = .init
    · subst hinit
      rw [turn, init]
      split <;> rfl
    · rw [(keeps_turn hinit hshutdown).isCancelled]

/-- **A resolver is cancelled** once a call of `shutdown` was begun. -/
theorem isCancelled_run (turns : List Turn) :
    (fresh.run parser turns).isCancelled = true ↔ .shutdown ∈ turns := by
  induction turns using List.reverseRecOn with
  | nil => exact iff_of_false nofun nofun
  | append_singleton turns last ih =>
    rw [run_concat, isCancelled_turn (sound_run turns), ih, List.mem_append, List.mem_singleton,
      eq_comm]

theorem wasStarted_turn :
    (l.turn parser t).wasStarted = true ↔
      l.wasStarted = true ∨ (t = .init ∧ ¬ l.isCancelled = true) := by
  by_cases hinit : t = .init
  · subst hinit
    by_cases hcancelled : l.isCancelled = true
    · rw [turn, init_of_isCancelled hcancelled]
      simp [hcancelled]
    · by_cases hstarted : l.wasStarted = true <;>
        simp [turn, init, refusal?, start, hcancelled, hstarted]
  · rw [or_iff_left fun h => hinit h.1]
    by_cases hshutdown : t = .shutdown
    · rw [hshutdown, turn, wasStarted_shutdownStep]
    · rw [(keeps_turn hinit hshutdown).wasStarted]

/-- **A connector is started** by the first `init`, if no call of `shutdown` comes before it. -/
theorem wasStarted_run (h : .shutdown ∉ turns) :
    (fresh.run parser turns).wasStarted = true ↔ .init ∈ turns := by
  induction turns using List.reverseRecOn with
  | nil => exact iff_of_false nofun nofun
  | append_singleton turns last ih =>
    have hbefore : .shutdown ∉ turns := fun hmem => h (List.mem_append_left _ hmem)
    rw [run_concat, wasStarted_turn, ih hbefore, isCancelled_run, and_iff_left hbefore,
      List.mem_append, List.mem_singleton, eq_comm (a := last)]

/-- **What `init` says after a run** depends on the calls before it. -/
theorem refusal?_run (parser : Parser) (turns : List Turn) :
    (.shutdown ∈ turns ∧ (fresh.run parser turns).refusal? = some .shutDown) ∨
      (.shutdown ∉ turns ∧ .init ∈ turns ∧
        (fresh.run parser turns).refusal? = some .alreadyStarted) ∨
      (.shutdown ∉ turns ∧ .init ∉ turns ∧ (fresh.run parser turns).refusal? = none) := by
  by_cases hshutdown : .shutdown ∈ turns
  · exact .inl ⟨hshutdown, refusal?_of_isCancelled ((isCancelled_run turns).mpr hshutdown)⟩
  · have hopen := mt (@isCancelled_run parser turns).mp hshutdown
    by_cases hinit : .init ∈ turns
    · refine .inr (.inl ⟨hshutdown, hinit, ?_⟩)
      rw [refusal?, if_neg hopen, if_pos ((wasStarted_run hshutdown).mpr hinit)]
    · refine .inr (.inr ⟨hshutdown, hinit, ?_⟩)
      rw [refusal?, if_neg hopen, if_neg (mt (wasStarted_run hshutdown).mp hinit)]

/-! ## After the return -/

/-- **What the consumer may still take to the store**: what it has in hand, and what was sent. -/
def left (l : Lifecycle) : List Payload :=
  match l.consumer with
  | .gone => []
  | .waiting => l.queue.unread
  | .applying payload => payload :: l.queue.unread

/-- **The events that the forwarder owes**, if these statuses are announced besides. -/
def owed (l : Lifecycle) (more : List Status) : List Event :=
  let later := (Event.ofStatuses l.herald.isHealthy (l.herald.channel.unread ++ more)).1
  match l.forwarder with
  | .gone => []
  | .waiting => later
  | .telling events => events ++ later

/-- **What is done between two times** when nothing is sent: these deliveries came to the store, and these
events were told.  The deliveries were sent before, and the events were owed or are those of some of the
deliveries. -/
structure Yields (l m : Lifecycle) (brought : List Payload) (announced : List Status)
    (told : List Event) : Prop where
  taken : m.taken = l.taken ++ brought
  left : brought ++ m.left <+: l.left
  fewer : announced.length ≤ brought.length
  heard : m.herald.heard = l.herald.heard ++ told
  owed : ∀ more, told ++ m.owed more <+: l.owed (announced ++ more)

/-- Nothing is done where nothing is taken or told. -/
theorem Yields.of_eq (htaken : m.taken = l.taken) (hleft : m.left <+: l.left)
    (hheard : m.herald.heard = l.herald.heard) (howed : ∀ more, m.owed more <+: l.owed more) :
    Yields l m [] [] [] where
  taken := htaken.trans (List.append_nil _).symm
  left := hleft
  fewer := Nat.le_refl _
  heard := hheard.trans (List.append_nil _).symm
  owed := howed

theorem Yields.refl (l : Lifecycle) : Yields l l [] [] [] :=
  .of_eq rfl List.prefix_rfl rfl fun _ => List.prefix_rfl

theorem Yields.trans {n : Lifecycle} {brought brought' : List Payload} {announced announced' : List Status}
    {told told' : List Event} (h : Yields l m brought announced told)
    (h' : Yields m n brought' announced' told') :
    Yields l n (brought ++ brought') (announced ++ announced') (told ++ told') where
  taken := by rw [h'.taken, h.taken, List.append_assoc]
  left := by
    rw [List.append_assoc]
    exact ((List.prefix_append_right_inj _).mpr h'.left).trans h.left
  fewer := by
    rw [List.length_append, List.length_append]
    exact Nat.add_le_add h.fewer h'.fewer
  heard := by rw [h'.heard, h.heard, List.append_assoc]
  owed more := by
    rw [List.append_assoc, List.append_assoc]
    exact ((List.prefix_append_right_inj _).mpr (h'.owed more)).trans (h.owed _)

theorem yields_stopConsumer : Yields l l.stopConsumer [] [] [] := by
  rw [stopConsumer]
  split
  · exact .of_eq rfl List.nil_prefix rfl fun _ => List.prefix_rfl
  · exact .refl l

theorem yields_stopForwarder : Yields l l.stopForwarder [] [] [] := by
  rw [stopForwarder]
  split
  · exact .of_eq rfl List.prefix_rfl rfl fun _ => List.nil_prefix
  · exact .refl l

theorem yields_take : Yields l l.take [] [] [] := by
  rw [take]
  split
  · next hwaiting =>
    split
    · next payload queue hreceive =>
      have hunread := Queue.unread_of_receive hreceive
      refine .of_eq rfl ?_ rfl fun _ => List.prefix_rfl
      rw [left, left, hwaiting, hunread]
    · exact .refl l
    · exact yields_stopConsumer
  · exact .refl l

/-- What is announced finds a place, or is lost. -/
theorem unread_send (c : StatusChannel) (status : Status) :
    ∃ announced, announced.length ≤ 1 ∧ (c.send status).unread = c.unread ++ announced := by
  rw [StatusChannel.send]
  split
  · exact ⟨[status], Nat.le_refl 1, rfl⟩
  · exact ⟨[], Nat.zero_le 1, (List.append_nil _).symm⟩

theorem yields_apply : ∃ brought announced, Yields l (l.apply parser) brought announced [] := by
  rw [apply]
  split
  · next payload happlying =>
    obtain ⟨announced, hlength, hunread⟩ :=
      unread_send l.herald.channel (l.herald.store.act parser (.apply payload)).2
    refine ⟨[payload], announced, ⟨rfl, ?_, hlength, (List.append_nil _).symm, fun more => ?_⟩⟩
    · rw [left, left, happlying]
      exact List.prefix_rfl
    · rw [owed, owed, Herald.perform, hunread, List.append_assoc]
      exact List.prefix_rfl
  · exact ⟨[], [], .refl l⟩

theorem yields_hear : Yields l l.hear [] [] [] := by
  rw [hear]
  split
  · next status unread hwaiting hunread =>
    refine .of_eq rfl List.prefix_rfl rfl fun more => ?_
    rw [owed, owed, hwaiting, hunread, List.cons_append, Event.ofStatuses_cons]
  · exact .refl l

theorem yields_tell : ∃ told, Yields l l.tell [] [] told := by
  rw [tell]
  split
  · next htelling =>
    refine ⟨[], .of_eq rfl List.prefix_rfl rfl fun more => ?_⟩
    rw [owed, owed, htelling]
    exact List.prefix_rfl
  · next event events htelling =>
    refine ⟨[event], ⟨(List.append_nil _).symm, List.prefix_rfl, Nat.le_refl 0, rfl, fun more => ?_⟩⟩
    rw [owed, owed, htelling]
    exact List.prefix_rfl
  · exact ⟨[], .refl l⟩

/-! ## The end -/

/-- A call that comes after the return only counts its steps. -/
theorem IsShut.call (h : l.IsShut) (hreturned : l.hasReturned = true) (hcall : t = .init ∨ t = .shutdown) :
    l.turn parser t = { l with shutdown := (l.turn parser t).shutdown } := by
  have hworker : l.stopWorker = l := if_neg h.worker
  obtain rfl | rfl := hcall
  · rw [turn, init_of_isCancelled h.cancelled]
  · obtain ⟨isCancelled, wasStarted, hasWorker, queue, consumer, forwarder, hasTasks, herald, taken, stage,
      hasReturned⟩ := l
    obtain rfl : isCancelled = true := h.cancelled
    obtain rfl : hasReturned = true := hreturned
    obtain rfl : hasTasks = false := Bool.eq_false_of_not_eq_true h.tasks
    rw [turn, shutdownStep]
    cases stage with
    | idle => rfl
    | cancelled => rw [hworker]
    | disconnected => rfl
    | draining => exact absurd rfl h.stage

/-- **Once it is shut, a turn only finishes** what was begun. -/
theorem IsShut.yields_turn (h : l.IsShut) (hreturned : l.hasReturned = true) (t : Turn) :
    ∃ brought announced told, Yields l (l.turn parser t) brought announced told := by
  by_cases hcall : t = .init ∨ t = .shutdown
  · rw [h.call hreturned hcall]
    exact ⟨[], [], [], .of_eq rfl List.prefix_rfl rfl fun _ => List.prefix_rfl⟩
  cases t with
  | init => exact absurd (.inl rfl) hcall
  | shutdown => exact absurd (.inr rfl) hcall
  | send payload =>
    rw [turn, send, if_neg h.worker]
    exact ⟨[], [], [], .refl l⟩
  | take => exact ⟨[], [], [], yields_take⟩
  | apply =>
    obtain ⟨brought, announced, hyields⟩ := @yields_apply parser l
    exact ⟨brought, announced, [], hyields⟩
  | hear => exact ⟨[], [], [], yields_hear⟩
  | tell =>
    obtain ⟨told, hyields⟩ := @yields_tell l
    exact ⟨[], [], told, hyields⟩
  | endConsumer =>
    refine ⟨[], [], [], ?_⟩
    rw [turn, if_pos h.cancelled]
    exact yields_stopConsumer
  | endForwarder =>
    refine ⟨[], [], [], ?_⟩
    rw [turn, if_pos h.cancelled]
    exact yields_stopForwarder

theorem hasReturned_turn (hreturned : l.hasReturned = true) (t : Turn) :
    (l.turn parser t).hasReturned = true := by
  by_cases hinit : t = .init
  · rw [hinit, turn, init]
    split <;> exact hreturned
  · by_cases hshutdown : t = .shutdown
    · rw [hshutdown, turn, shutdownStep]
      split
      · exact hreturned
      · exact (@keeps_stopWorker parser l).hasReturned.trans hreturned
      · split
        · exact (@keeps_stopConsumer parser l).hasReturned.trans hreturned
        · rfl
      · rfl
    · exact (keeps_turn hinit hshutdown).hasReturned.trans hreturned

theorem hasReturned_run (hreturned : l.hasReturned = true) (more : List Turn) :
    (l.run parser more).hasReturned = true := by
  induction more using List.reverseRecOn with
  | nil => exact hreturned
  | append_singleton more last ih => rw [run_concat]; exact hasReturned_turn ih last

/-- **After the return of `shutdown`** whatever happens only finishes what was begun. -/
theorem exists_yields_run (hreturned : (fresh.run parser turns).hasReturned = true) (more : List Turn) :
    ∃ brought announced told,
      Yields (fresh.run parser turns) (fresh.run parser (turns ++ more)) brought announced told := by
  induction more using List.reverseRecOn with
  | nil =>
    rw [List.append_nil]
    exact ⟨[], [], [], .refl _⟩
  | append_singleton more last ih =>
    obtain ⟨brought, announced, told, hyields⟩ := ih
    have hstill : (fresh.run parser (turns ++ more)).hasReturned = true := by
      rw [run_append]
      exact hasReturned_run hreturned more
    obtain ⟨brought', announced', told', hyields'⟩ :=
      ((sound_run (turns ++ more)).returned hstill).yields_turn hstill last
    rw [← List.append_assoc, run_concat]
    exact ⟨_, _, _, hyields.trans hyields'⟩

/-- **Both parts have ended** that may outlive a call of `shutdown`. -/
structure IsOver (l : Lifecycle) : Prop where
  consumer : l.consumer = .gone
  forwarder : l.forwarder = .gone

/-- **When all is over a turn does nothing** but count the steps of a call. -/
theorem IsOver.turn (h : l.IsOver) (hshut : l.IsShut) (hreturned : l.hasReturned = true) (t : Turn) :
    l.turn parser t = { l with shutdown := (l.turn parser t).shutdown } := by
  have hconsumer : l.stopConsumer = l := by rw [stopConsumer, h.consumer]
  have htake : l.take = l := by rw [take, h.consumer]
  have happly : l.apply parser = l := by rw [apply, h.consumer]
  have hforwarder : l.stopForwarder = l := by rw [stopForwarder, h.forwarder]
  have hhear : l.hear = l := by rw [hear, h.forwarder]
  have htell : l.tell = l := by rw [tell, h.forwarder]
  cases t with
  | init => exact hshut.call hreturned (.inl rfl)
  | shutdown => exact hshut.call hreturned (.inr rfl)
  | send payload => rw [Lifecycle.turn, send, if_neg hshut.worker]
  | take => rw [Lifecycle.turn, htake]
  | apply => rw [Lifecycle.turn, happly]
  | hear => rw [Lifecycle.turn, hhear]
  | tell => rw [Lifecycle.turn, htell]
  | endConsumer => rw [Lifecycle.turn, hconsumer, ite_self]
  | endForwarder => rw [Lifecycle.turn, hforwarder, ite_self]

theorem IsOver.run (h : (fresh.run parser turns).IsOver)
    (hreturned : (fresh.run parser turns).hasReturned = true) (more : List Turn) :
    fresh.run parser (turns ++ more) =
      { fresh.run parser turns with shutdown := (fresh.run parser (turns ++ more)).shutdown } := by
  induction more using List.reverseRecOn with
  | nil => rw [List.append_nil]
  | append_singleton more last ih =>
    have hstill : (fresh.run parser (turns ++ more)).hasReturned = true := by
      rw [run_append]
      exact hasReturned_run hreturned more
    have hover : (fresh.run parser (turns ++ more)).IsOver := by
      rw [ih]
      exact ⟨h.consumer, h.forwarder⟩
    rw [← List.append_assoc, run_concat,
      hover.turn ((sound_run (turns ++ more)).returned hstill) hstill last, ih]

/-- The steps that a call of `shutdown` still takes at most, or that a new one takes. -/
def stepsLeft : Shutdown → Nat
  | .idle => 4
  | .cancelled => 3
  | .disconnected => 2
  | .draining => 1

theorem hasReturned_shutdownStep_or :
    l.shutdownStep.hasReturned = true ∨ stepsLeft l.shutdownStep.shutdown < stepsLeft l.shutdown := by
  rw [shutdownStep]
  split
  · next hstage => exact .inr (hstage ▸ Nat.lt_succ_self _)
  · next hstage => exact .inr (hstage ▸ Nat.lt_succ_self _)
  · next hstage =>
    split
    · exact .inr (hstage ▸ Nat.lt_succ_self _)
    · exact .inl rfl
  · exact .inl rfl

/-- A call of `shutdown` returns. -/
theorem hasReturned_run_shutdowns {count : Nat} (h : stepsLeft l.shutdown ≤ count) :
    (l.run parser (List.replicate count .shutdown)).hasReturned = true := by
  induction count generalizing l with
  | zero => cases hstage : l.shutdown <;> rw [hstage] at h <;> cases h
  | succ count ih =>
    rw [List.replicate_succ, run, List.foldl_cons]
    obtain hreturned | hfewer := @hasReturned_shutdownStep_or l
    · exact hasReturned_run hreturned _
    · exact ih (Nat.le_of_lt_succ (Nat.lt_of_lt_of_le hfewer h))

theorem stepsLeft_le (stage : Shutdown) : stepsLeft stage ≤ 4 := by
  cases stage <;> decide

/-- No more is left than what is in hand and what the queue holds. -/
theorem length_left_le : l.left.length ≤ Queue.capacity + 1 := by
  have hqueue := l.queue.length_unread_le
  rw [left]
  split
  · exact Nat.zero_le _
  · exact Nat.le_succ_of_le hqueue
  · exact Nat.succ_le_succ hqueue

/-- **What is promised of a run.** -/
structure Lawful (parser : Parser) (turns : List Turn) : Prop where
  /-- The first `init` before any call of `shutdown` starts the connector, … -/
  first : (fresh.run parser turns).refusal? = none ↔ .shutdown ∉ turns ∧ .init ∉ turns
  /-- … a later one finds it started, … -/
  again : (fresh.run parser turns).refusal? = some .alreadyStarted ↔ .shutdown ∉ turns ∧ .init ∈ turns
  /-- … and from the first call of `shutdown` on `init` is refused. -/
  closed : (fresh.run parser turns).refusal? = some .shutDown ↔ .shutdown ∈ turns
  /-- A call of `shutdown` returns after four steps at most, … -/
  returns : (fresh.run parser (turns ++ List.replicate 4 .shutdown)).hasReturned = true
  /-- … and once one has, another call changes nothing. -/
  calls : (fresh.run parser turns).hasReturned = true → ∀ t, t = .init ∨ t = .shutdown →
    fresh.run parser (turns ++ [t]) =
      { fresh.run parser turns with shutdown := (fresh.run parser (turns ++ [t])).shutdown }
  /-- Whatever happens then, only what was sent before comes to the store, and only events are told that
  were owed or that are announced for it; … -/
  finishes : (fresh.run parser turns).hasReturned = true → ∀ more, ∃ brought announced told,
    Yields (fresh.run parser turns) (fresh.run parser (turns ++ more)) brought announced told
  /-- … nine deliveries may be left. -/
  few : (fresh.run parser turns).left.length ≤ Queue.capacity + 1
  /-- Where the consumer and the forwarder had ended, whatever happens changes nothing. -/
  ended : (fresh.run parser turns).hasReturned = true → (fresh.run parser turns).IsOver → ∀ more,
    fresh.run parser (turns ++ more) =
      { fresh.run parser turns with shutdown := (fresh.run parser (turns ++ more)).shutdown }
  /-- At any time requests are answered from the table of the last delivery taken that gave one. -/
  answers : ∀ (a : Answering) key context type default,
    a.Justified ((fresh.run parser turns).lastTable? parser) key context type default
      (a.resolve (fresh.run parser turns).herald.store key type default context)

/-- **Every run is lawful.** -/
theorem lawful_turns (parser : Parser) (turns : List Turn) : Lawful parser turns where
  first := by obtain ⟨h, hr⟩ | ⟨h, h', hr⟩ | ⟨h, h', hr⟩ := refusal?_run parser turns <;> simp [*]
  again := by obtain ⟨h, hr⟩ | ⟨h, h', hr⟩ | ⟨h, h', hr⟩ := refusal?_run parser turns <;> simp [*]
  closed := by obtain ⟨h, hr⟩ | ⟨h, h', hr⟩ | ⟨h, h', hr⟩ := refusal?_run parser turns <;> simp [*]
  returns := by rw [run_append]; exact hasReturned_run_shutdowns (stepsLeft_le _)
  calls hreturned t hcall := by
    rw [run_concat]
    exact ((sound_run turns).returned hreturned).call hreturned hcall
  finishes := exists_yields_run
  few := length_left_le
  ended hreturned hover := hover.run hreturned
  answers a key context type default := by
    rw [← (sound_run turns).inForce.table?]
    exact Answering.justified_resolve a _ key context type default

/-- What a part has in hand outlives the call: here the first table comes after the return, … -/
example :
    let l := fresh.run (.standard .none) ([.init, .send (.data "\x7b\"flags\":\x7b\x7d\x7d" ∅), .take] ++
      List.replicate 4 .shutdown)
    l.hasReturned = true ∧ l.herald.store.isReady = false ∧
      (l.turn (.standard .none) .apply).herald.store.isReady = true := by
  decide +kernel

/-- … and here the listener is told after it. -/
example :
    let l := fresh.run (.standard .none) ([.init, .send (.fault "away"), .take, .apply, .hear] ++
      List.replicate 4 .shutdown)
    l.hasReturned = true ∧ l.herald.heard = [] ∧
      (l.turn (.standard .none) .tell).herald.heard = [.stale "away"] := by
  decide +kernel

end Lifecycle

end FeatureFlags
