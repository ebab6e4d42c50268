import FeatureFlags.Proofs.Provider.Lifecycle
import FeatureFlags.Proofs.Provider.Metadata

/-!
# Proofs/Provider/Calls — a resolver is a lifecycle whose parts are quick

A resolver with a stream or a file does at each call what its parts would do if each took its turn as
soon as it can: a delivery is sent, taken and passed on before the next one comes.  So each row of calls
is a run of turns with the same calls in it (`Realizes.calls`), and what is promised of runs is promised
of resolvers (`Resolver.calls_law`).  A quick part has nothing in hand when `shutdown` is called, and so
none outlives the call.
-/

namespace FeatureFlags

open Lifecycle

variable {parser : Parser} {answering : Answering} {r : Resolver} {l : Lifecycle}

/-! ## Turns of the parts -/

namespace Lifecycle

/-- Turns of the parts only: no call among them. -/
def AreInner (turns : List Turn) : Prop := .init ∉ turns ∧ .shutdown ∉ turns

theorem areInner_nil : AreInner [] := ⟨List.not_mem_nil, List.not_mem_nil⟩

theorem AreInner.append {first second : List Turn} (h : AreInner first) (h' : AreInner second) :
    AreInner (first ++ second) :=
  ⟨fun hmem => (List.mem_append.mp hmem).elim h.1 h'.1,
    fun hmem => (List.mem_append.mp hmem).elim h.2 h'.2⟩

/-- Events in hand are told one by one. -/
theorem run_tells {events : List Event} (hforwarder : l.forwarder = .telling events) :
    l.run parser (List.replicate (events.length + 1) .tell) =
      { l with
        forwarder := .waiting
        herald := { l.herald with heard := l.herald.heard ++ events } } := by
  induction events generalizing l with
  | nil =>
    have htell : l.tell = { l with forwarder := .waiting } := by rw [tell, hforwarder]
    rw [List.append_nil]
    exact htell
  | cons event events ih =>
    have htell : l.tell =
        { l with
          forwarder := .telling events
          herald := { l.herald with heard := l.herald.heard ++ [event] } } := by
      rw [tell, hforwarder]
    rw [List.length_cons, List.replicate_succ, run, List.foldl_cons, turn, htell]
    refine (ih rfl).trans ?_
    rw [List.append_assoc, List.singleton_append]

/-- **An announcement is passed on** if its events are told at once. -/
theorem exists_run_forward (hforwarder : l.forwarder = .waiting) :
    ∃ turns, AreInner turns ∧ l.run parser turns = { l with herald := l.herald.forward } := by
  cases hunread : l.herald.channel.unread with
  | nil =>
    refine ⟨[], areInner_nil, ?_⟩
    rw [Herald.forward, hunread]
    rfl
  | cons status unread =>
    refine ⟨.hear :: List.replicate ((Event.ofStatus l.herald.isHealthy status).1.length + 1) .tell,
      ⟨by simp, by simp⟩, ?_⟩
    have hhear : l.hear =
        { l with
          forwarder := .telling (Event.ofStatus l.herald.isHealthy status).1
          herald := { l.herald with
            channel := { l.herald.channel with unread }
            isHealthy := (Event.ofStatus l.herald.isHealthy status).2 } } := by
      rw [hear, hforwarder, hunread]
    rw [run, List.foldl_cons, turn, hhear, Herald.forward, hunread]
    refine (run_tells rfl).trans ?_
    rw [hforwarder]

theorem exists_run_forwards (hforwarder : l.forwarder = .waiting) (count : Nat) :
    ∃ turns, AreInner turns ∧
      l.run parser turns = { l with herald := l.herald.run parser (List.replicate count .forward) } := by
  induction count generalizing l with
  | zero => exact ⟨[], areInner_nil, rfl⟩
  | succ count ih =>
    obtain ⟨first, hfirst, hforward⟩ := @exists_run_forward parser l hforwarder
    obtain ⟨later, hlater, hforwards⟩ := @ih { l with herald := l.herald.forward } hforwarder
    refine ⟨first ++ later, hfirst.append hlater, ?_⟩
    rw [run_append, hforward, hforwards]
    rfl

/-- A delivery goes through the empty queue at once. -/
theorem run_delivery (hworker : l.hasWorker = true) (hconsumer : l.consumer = .waiting)
    (hqueue : l.queue = ∅) (payload : Payload) :
    l.run parser [.send payload, .take, .apply] =
      { l with herald := l.herald.perform parser (.apply payload), taken := l.taken ++ [payload] } := by
  obtain ⟨isCancelled, wasStarted, hasWorker, queue, consumer, forwarder, hasTasks, herald, taken, stage,
    hasReturned⟩ := l
  obtain rfl : hasWorker = true := hworker
  obtain rfl : consumer = .waiting := hconsumer
  obtain rfl : queue = ∅ := hqueue
  rfl

/-- A call of `shutdown` that nothing comes between stops parts that wait, … -/
theorem exists_run_shutdown (hidle : l.shutdown = .idle) (hconsumer : l.consumer = .waiting)
    (hforwarder : l.forwarder = .waiting) (htasks : l.hasTasks = true) :
    ∃ queue, l.run parser (List.replicate 4 .shutdown) =
      { l with
        isCancelled := true
        hasWorker := false
        queue
        consumer := .gone
        forwarder := .gone
        hasTasks := false
        herald := { l.herald with channel := l.herald.channel.close }
        hasReturned := true } := by
  obtain ⟨isCancelled, wasStarted, hasWorker, queue, consumer, forwarder, hasTasks, herald, taken, stage,
    hasReturned⟩ := l
  obtain rfl : stage = .idle := hidle
  obtain rfl : consumer = .waiting := hconsumer
  obtain rfl : forwarder = .waiting := hforwarder
  obtain rfl : hasTasks = true := htasks
  cases hasWorker <;> exact ⟨_, rfl⟩

/-- … and where there are none it returns a step earlier. -/
theorem run_shutdown_of_resting (hidle : l.shutdown = .idle) (hworker : ¬ l.hasWorker = true)
    (htasks : ¬ l.hasTasks = true) :
    l.run parser (List.replicate 3 .shutdown) = { l with isCancelled := true, hasReturned := true } := by
  obtain ⟨isCancelled, wasStarted, hasWorker, queue, consumer, forwarder, hasTasks, herald, taken, stage,
    hasReturned⟩ := l
  obtain rfl : stage = .idle := hidle
  obtain rfl : hasWorker = false := Bool.eq_false_of_not_eq_true hworker
  obtain rfl : hasTasks = false := Bool.eq_false_of_not_eq_true htasks
  rfl

end Lifecycle

namespace Resolver

/-- A delivery changes only what is in force and what is told. -/
theorem exists_deliver (r : Resolver) (payload : Payload) :
    ∃ store channel isHealthy heard, r.deliver payload = { r with store, channel, isHealthy, heard } ∧
      (r.channel.isHeld = true → channel.isHeld = true) := by
  have hsent := fun hheld => @isHeld_send r.channel hheld (r.store.apply r.parser payload).2
  rw [deliver, tell]
  split
  · exact ⟨_, _, _, _, rfl, hsent⟩
  · exact ⟨_, _, _, _, rfl, hsent⟩

end Resolver

/-! ## A resolver and its parts -/

/-- The parts are at work, and have nothing to do. -/
structure AtWork (r : Resolver) (l : Lifecycle) : Prop where
  started : r.wasStarted = true
  consumer : l.consumer = .waiting
  forwarder : l.forwarder = .waiting
  tasks : l.hasTasks = true
  queue : l.queue = ∅
  held : r.channel.isHeld = true

/-- The parts are not at work, and nothing comes. -/
structure AtRest (r : Resolver) (l : Lifecycle) : Prop where
  ended : l.IsOver
  tasks : ¬ l.hasTasks = true
  feed : r.feed = .idle
  channel : r.channel.close = r.channel

/-- **A resolver and its parts agree** when no call is under way. -/
structure Realizes (parser : Parser) (answering : Answering) (r : Resolver) (l : Lifecycle) :
    Prop where
  parser_eq : r.parser = parser
  answering_eq : r.answering = answering
  source : ∀ initial, r.source ≠ .pushed initial
  feed : r.feed ≠ .accepting
  herald : l.herald = r.herald
  cancelled : l.isCancelled = r.isShutDown
  started : l.wasStarted = r.wasStarted
  settled : l.shutdown = .idle
  returned : l.hasReturned = r.isShutDown
  untouched : r.wasStarted = false → r.channel = ∅
  working : l.hasWorker = true → AtWork r l
  resting : ¬ l.hasWorker = true → AtRest r l

/-- **Turns of the parts alone** lead from `l` to what agrees with `r`. -/
def Attains (parser : Parser) (answering : Answering) (l : Lifecycle) (r : Resolver) : Prop :=
  ∃ turns, AreInner turns ∧ Realizes parser answering r (l.run parser turns)

theorem Attains.andThen {r' : Resolver} (h : Attains parser answering l r)
    (hnext : ∀ {l'}, Realizes parser answering r l' → Attains parser answering l' r') :
    Attains parser answering l r' := by
  obtain ⟨turns, hinner, hrun⟩ := h
  obtain ⟨later, hlater, hend⟩ := hnext hrun
  exact ⟨turns ++ later, hinner.append hlater, run_append turns later ▸ hend⟩

namespace Realizes

theorem attains (h : Realizes parser answering r l) : Attains parser answering l r :=
  ⟨[], areInner_nil, h⟩

theorem atTime (h : Realizes parser answering r l) (clock : Nat) :
    Realizes parser answering { r with clock } l :=
  { h with
    working := fun hworker => { h.working hworker with }
    resting := fun hresting => { h.resting hresting with } }

/-- The source goes on. -/
theorem withFeed (h : Realizes parser answering r l) {due : Nat} {payload : Option Payload} {feed : Feed}
    (hnext : r.feed.next? r.file = some (due, payload, feed)) :
    l.hasWorker = true ∧ Realizes parser answering { r with feed } l := by
  have hworker : l.hasWorker = true := by
    by_contra hresting
    rw [(h.resting hresting).feed] at hnext
    cases hnext
  have hfeed : feed ≠ .accepting := by
    rintro rfl
    unfold Feed.next? at hnext
    split at hnext <;> cases hnext
  exact ⟨hworker, { h with
    feed := hfeed
    working := fun _ => { h.working hworker with }
    resting := fun hresting => absurd hworker hresting }⟩

/-- **A delivery** is sent, taken and passed on. -/
theorem deliver (h : Realizes parser answering r l) (hworker : l.hasWorker = true) (payload : Payload) :
    Attains parser answering l (r.deliver payload) := by
  have hwork := h.working hworker
  obtain ⟨count, hherald⟩ := Resolver.herald_deliver hwork.held payload
  obtain ⟨store, channel, isHealthy, heard, hdeliver, hstill⟩ := r.exists_deliver payload
  have hdelivery := @run_delivery parser l hworker hwork.consumer hwork.queue payload
  obtain ⟨later, hlater, hforwards⟩ := @exists_run_forwards parser
    { l with herald := l.herald.perform parser (.apply payload), taken := l.taken ++ [payload] }
    hwork.forwarder count
  have hrun : l.run parser ([.send payload, .take, .apply] ++ later) =
      { l with
        herald := l.herald.run parser (.action (.apply payload) :: List.replicate count .forward)
        taken := l.taken ++ [payload] } := by
    rw [run_append, hdelivery, hforwards]
    rfl
  refine ⟨[.send payload, .take, .apply] ++ later, .append ⟨by simp, by simp⟩ hlater, ?_⟩
  rw [← h.herald, h.parser_eq] at hherald
  rw [hdeliver] at hherald ⊢
  rw [hrun]
  exact { h with
    herald := hherald.symm
    untouched := fun hnew => absurd hwork.started (hnew ▸ nofun)
    working := fun _ => { hwork with held := hstill hwork.held }
    resting := fun hresting => absurd hworker hresting }

/-- What the source brings next, if anything. -/
theorem deliverNext (h : Realizes parser answering r l) {due : Nat} {payload : Option Payload}
    {feed : Feed} (hnext : r.feed.next? r.file = some (due, payload, feed)) (clock : Nat) :
    Attains parser answering l (payload.toList.foldl Resolver.deliver { r with feed, clock }) := by
  obtain ⟨hworker, hfeed⟩ := h.withFeed hnext
  cases payload with
  | none => exact (hfeed.atTime clock).attains
  | some payload => exact (hfeed.atTime clock).deliver hworker payload

theorem deliverUntil (h : Realizes parser answering r l) (time bound : Nat) :
    Attains parser answering l (r.deliverUntil time bound) := by
  induction bound generalizing r l with
  | zero => exact h.attains
  | succ bound ih =>
    rw [Resolver.deliverUntil]
    split
    · exact h.attains
    · next due payload feed hnext =>
      split
      · exact (h.deliverNext hnext r.clock).andThen ih
      · exact h.attains

theorem deliverUntilReady (h : Realizes parser answering r l) (limit bound : Nat) :
    Attains parser answering l (r.deliverUntilReady limit bound) := by
  induction bound generalizing r l with
  | zero => exact h.attains
  | succ bound ih =>
    rw [Resolver.deliverUntilReady]
    split
    · exact h.attains
    · split
      · exact h.attains
      · next due payload feed hnext =>
        split
        · exact (h.deliverNext hnext (max r.clock due)).andThen ih
        · exact h.attains

theorem moveTo (h : Realizes parser answering r l) (time : Nat) :
    Attains parser answering l (r.moveTo time) :=
  (h.atTime time).deliverUntil time (r.feed.bound time)

theorem awaitTable (h : Realizes parser answering r l) :
    Attains parser answering l r.awaitTable.2 := by
  have hready := h.deliverUntilReady (r.clock + r.settings.deadline)
    (r.feed.bound (r.clock + r.settings.deadline))
  rw [Resolver.awaitTable]
  split
  · exact hready.andThen fun hend => hend.moveTo _
  · exact hready.andThen fun hend => hend.moveTo _

/-! ## Calls -/

/-- A stream and a file bring nothing at once. -/
theorem exists_start {source : Source} (h : ∀ initial, source ≠ .pushed initial) (draw : Nat → Nat)
    (now : Nat) : ∃ feed, feed ≠ .accepting ∧ Feed.start draw now source = ([], feed) := by
  cases source with
  | pushed initial => exact absurd rfl (h initial)
  | stream settings service => exact ⟨.coming _, nofun, rfl⟩
  | file path interval => exact ⟨.watching _, nofun, rfl⟩

/-- … and each of them can be started once. -/
theorem canStart_eq (h : Realizes parser answering r l) : r.canStart = !l.wasStarted := by
  rw [Resolver.canStart, h.started]
  split
  · next initial hsource => exact absurd hsource (h.source initial)
  · rfl

/-- **What `init` says** is what its parts say, if they refuse it. -/
theorem init_eq (h : Realizes parser answering r l) :
    r.init = match l.refusal? with
      | some failure => (.error failure, r)
      | none => r.begin.awaitTable := by
  rw [Resolver.init, refusal?, h.canStart_eq, h.cancelled]
  cases r.isShutDown with
  | true => rfl
  | false => cases l.wasStarted <;> rfl

/-- **The start of a resolver** is the start of its parts. -/
theorem begin (h : Realizes parser answering r l) (hfree : l.refusal? = none) :
    Realizes parser answering r.begin l.init := by
  obtain ⟨-, hnew⟩ := refusal?_eq_none_iff.mp hfree
  have hinit : l.init = l.start := by rw [Lifecycle.init, hfree]; rfl
  obtain ⟨feed, hfeed, hstart⟩ := exists_start h.source r.draw r.clock
  have hchannel := h.untouched (h.started ▸ hnew)
  have hbegin : r.begin =
      { r with feed, wasStarted := true, channel := ⟨[], true, true⟩, heard := r.heard ++ [] } := by
    rw [Resolver.begin, hstart, hchannel]
    rfl
  have hherald : l.start.herald = ⟨r.store, ⟨[], true, true⟩, r.isHealthy, r.heard⟩ := by
    rw [start, h.herald, Resolver.herald, hchannel]
    rfl
  rw [hinit, hbegin, List.append_nil]
  exact {
    parser_eq := h.parser_eq
    answering_eq := h.answering_eq
    source := h.source
    feed := hfeed
    herald := hherald
    cancelled := h.cancelled
    started := rfl
    settled := h.settled
    returned := h.returned
    untouched := fun hnew => absurd hnew Bool.noConfusion
    working := fun _ => {
      started := rfl
      consumer := rfl
      forwarder := by rw [start, h.herald, Resolver.herald, hchannel]; rfl
      tasks := rfl
      queue := rfl
      held := rfl }
    resting := fun hresting => absurd rfl hresting }

theorem init (h : Realizes parser answering r l) :
    ∃ turns, AreInner turns ∧ Realizes parser answering r.init.2 (l.run parser (.init :: turns)) := by
  rw [h.init_eq]
  cases hrefusal : l.refusal? with
  | some failure =>
    have hinit : l.init = l := by rw [Lifecycle.init, hrefusal]; rfl
    refine ⟨[], areInner_nil, ?_⟩
    rw [show l.run parser [.init] = l from hinit]
    exact h
  | none => exact (h.begin hrefusal).awaitTable

/-- **The end of a resolver** is a whole call of `shutdown`. -/
theorem shutdown (h : Realizes parser answering r l) :
    ∃ count, Realizes parser answering r.shutdown
      (l.run parser (List.replicate (count + 1) .shutdown)) := by
  have hclosed (c : StatusChannel) : c.close.close = c.close := by
    by_cases htaken : c.isTaken = true <;> simp [StatusChannel.close, htaken]
  by_cases hworker : l.hasWorker = true
  · have hwork := h.working hworker
    obtain ⟨queue, hrun⟩ :=
      @exists_run_shutdown parser l h.settled hwork.consumer hwork.forwarder hwork.tasks
    refine ⟨3, ?_⟩
    rw [hrun]
    exact { h with
      feed := nofun
      herald := by rw [h.herald]; rfl
      cancelled := rfl
      returned := rfl
      untouched := fun hnew => absurd hwork.started (hnew ▸ nofun)
      working := nofun
      resting := fun _ => ⟨⟨rfl, rfl⟩, nofun, rfl, hclosed r.channel⟩ }
  · have hrest := h.resting hworker
    refine ⟨2, ?_⟩
    rw [run_shutdown_of_resting h.settled hworker hrest.tasks]
    exact { h with
      feed := nofun
      herald := by rw [h.herald, Resolver.herald, ← hrest.channel]; rfl
      cancelled := rfl
      returned := rfl
      untouched := fun hnew => congrArg StatusChannel.close (h.untouched hnew)
      working := fun hworking => absurd hworking hworker
      resting := fun _ =>
        ⟨⟨hrest.ended.consumer, hrest.ended.forwarder⟩, hrest.tasks, rfl, hclosed r.channel⟩ }

/-- **Each call** is a run of turns with this call among them. -/
theorem call (h : Realizes parser answering r l) (c : Resolver.Call) :
    ∃ turns, Realizes parser answering (r.call c) (l.run parser turns) ∧ (.init ∈ turns ↔ .init = c) ∧
      (.shutdown ∈ turns ↔ .shutdown = c) := by
  cases c with
  | init =>
    obtain ⟨turns, ⟨hinit, hshutdown⟩, hrun⟩ := h.init
    exact ⟨.init :: turns, hrun, by simp, by simp [hshutdown]⟩
  | shutdown =>
    obtain ⟨count, hrun⟩ := h.shutdown
    exact ⟨_, hrun, by simp, by simp⟩
  | advance time =>
    obtain ⟨turns, ⟨hinit, hshutdown⟩, hrun⟩ := h.moveTo (r.clock + time)
    exact ⟨turns, hrun, by simp [hinit], by simp [hshutdown]⟩
  | push payload =>
    have hpush : r.push payload = (false, r) := by
      rw [Resolver.push]
      split
      · next hfeed => exact absurd hfeed h.feed
      · rfl
    exact ⟨[], by rw [Resolver.call, hpush]; exact h, by simp, by simp⟩

/-- **A row of calls** is a run of turns with these calls among them. -/
theorem calls (h : Realizes parser answering r l) (row : List Resolver.Call) :
    ∃ turns, Realizes parser answering (r.calls row) (l.run parser turns) ∧
      (.init ∈ turns ↔ .init ∈ row) ∧ (.shutdown ∈ turns ↔ .shutdown ∈ row) := by
  induction row generalizing r l with
  | nil => exact ⟨[], h, by simp, by simp⟩
  | cons c row ih =>
    obtain ⟨first, hfirst, hinit, hshutdown⟩ := h.call c
    obtain ⟨later, hlater, hinits, hshutdowns⟩ := ih hfirst
    refine ⟨first ++ later, run_append first later ▸ hlater, ?_, ?_⟩
    · rw [List.mem_append, List.mem_cons, hinit, hinits]
    · rw [List.mem_append, List.mem_cons, hshutdown, hshutdowns]

end Realizes

/-- A new resolver. -/
theorem realizes_make {settings : Settings} {answering : Answering} {source : Source}
    {file : Option DiskFile} {draw : Nat → Nat}
    (hmake : Resolver.make settings parser answering (.ok source) file draw = .ok r)
    (hsource : ∀ initial, source ≠ .pushed initial) : Realizes parser answering r fresh := by
  rw [Resolver.make] at hmake
  split at hmake
  · cases hmake
  · obtain rfl := Except.ok.inj hmake
    exact {
      parser_eq := rfl
      answering_eq := rfl
      source := hsource
      feed := nofun
      herald := rfl
      cancelled := rfl
      started := rfl
      settled := rfl
      returned := rfl
      untouched := fun _ => rfl
      working := nofun
      resting := fun _ => ⟨⟨rfl, rfl⟩, nofun, rfl, rfl⟩ }

namespace Resolver

/-- Waiting ends with a table or without one. -/
theorem awaitTable_ne {failure : Failure} (h : r.awaitTable.1 = .error failure) :
    ∃ deadline, failure = .noConfiguration deadline := by
  rw [awaitTable] at h
  split at h
  · cases h
  · exact ⟨_, (Except.error.inj h).symm⟩

/-- A call of `init` is refused as its parts refuse it; other failures are those of waiting. -/
theorem init_eq_error_iff (h : Realizes parser answering r l) (failure : Failure)
    (hfailure : ∀ deadline, failure ≠ .noConfiguration deadline) :
    r.init.1 = .error failure ↔ l.refusal? = some failure := by
  rw [h.init_eq]
  cases l.refusal? with
  | some other => simp
  | none =>
    refine iff_of_false (fun h => ?_) nofun
    obtain ⟨deadline, rfl⟩ := awaitTable_ne h
    exact hfailure deadline rfl

/-- **Where no turn of its parts changes the herald**, no row of calls changes what the listener has been
told or what a request is answered. -/
theorem calls_of_ended (h : Realizes parser answering r l)
    (hended : ∀ turns, (l.run parser turns).herald = l.herald) (more : List Call) :
    (r.calls more).store = r.store ∧ (r.calls more).heard = r.heard ∧
      ∀ key type default context, (r.calls more).resolve key type default context =
        r.resolve key type default context := by
  obtain ⟨others, hmore, -, -⟩ := h.calls more
  have hherald := hmore.herald.symm.trans ((hended others).trans h.herald)
  have hstore : (r.calls more).store = r.store := congrArg Herald.store hherald
  refine ⟨hstore, congrArg Herald.heard hherald, fun key type default context => ?_⟩
  rw [resolve, resolve, hstore, hmore.answering_eq, h.answering_eq]

/-- **The law of a resolver** with a stream or a file.  Its parts are lawful whatever they do in whatever
order, and each row of calls is a run of theirs with the same calls, in which they are quick.  So a call of
`init` after another one is refused as started already before the first call of `shutdown`, and as shut
down after it; and from then on, whatever calls follow, the table of these quick parts stays, the listener
is told nothing and each request ends as it would have. -/
theorem calls_law {settings : Settings} {source : Source} {file : Option DiskFile} {draw : Nat → Nat}
    (hmake : make settings parser answering (.ok source) file draw = .ok r)
    (hsource : ∀ initial, source ≠ .pushed initial) :
    (∀ turns, Lawful parser turns) ∧
    ∀ row,
      (∃ turns, Realizes parser answering (r.calls row) (fresh.run parser turns) ∧
        (.init ∈ turns ↔ .init ∈ row) ∧ (.shutdown ∈ turns ↔ .shutdown ∈ row)) ∧
      ((r.calls row).init.1 = .error .alreadyStarted ↔ .shutdown ∉ row ∧ .init ∈ row) ∧
      ((r.calls row).init.1 = .error .shutDown ↔ .shutdown ∈ row) ∧
      (.shutdown ∈ row → ∀ more,
        (r.calls (row ++ more)).store = (r.calls row).store ∧
        (r.calls (row ++ more)).heard = (r.calls row).heard ∧
        ∀ key type default context,
          (r.calls (row ++ more)).resolve key type default context =
            (r.calls row).resolve key type default context) := by
  refine ⟨lawful_turns parser, fun row => ?_⟩
  obtain ⟨turns, hrow, hinit, hshutdown⟩ := (realizes_make hmake hsource).calls row
  have hlawful := lawful_turns parser turns
  refine ⟨⟨turns, hrow, hinit, hshutdown⟩, ?_, ?_, fun hcalled more => ?_⟩
  · rw [init_eq_error_iff hrow .alreadyStarted nofun, hlawful.again, hinit, hshutdown]
  · rw [init_eq_error_iff hrow .shutDown nofun, hlawful.closed, hshutdown]
  · have hreturned : (fresh.run parser turns).hasReturned = true := by
      rw [hrow.returned, ← hrow.cancelled]
      exact (isCancelled_run turns).mpr (hshutdown.mpr hcalled)
    have hover := (hrow.resting ((sound_run turns).returned hreturned).worker).ended
    rw [show r.calls (row ++ more) = (r.calls row).calls more from List.foldl_append]
    refine calls_of_ended hrow (fun others => ?_) more
    rw [← run_append, hlawful.ended hreturned hover others]

/-- A resolver that watches a file with no flags in it. -/
def watching : Except Failure Resolver :=
  make (∅ : Layer).settle (.standard .none) ⟨.standard, none, 0⟩ (.ok (.file "flags.json" 5000))
    (some ⟨0, "\x7b\"flags\":\x7b\x7d\x7d".toUTF8.toList⟩) fun _ => 0

/-- It is started, gets its table, is shut down twice and is not started again. -/
theorem calls_law_watching :
    ∃ r, watching = .ok r ∧ (r.calls [.init]).store.isReady = true ∧
      (r.calls [.init]).init.1 = .error .alreadyStarted ∧
      (r.calls [.init, .shutdown]).init.1 = .error .shutDown ∧
      (r.calls ([.init, .shutdown] ++ [.init, .advance 10000, .shutdown])).heard =
        (r.calls [.init, .shutdown]).heard := by
  have hready : watching.toOption.map (fun r => (r.calls [.init]).store.isReady) = some true := by
    decide +kernel
  obtain ⟨r, hmake, hready⟩ := Option.map_eq_some_iff.mp hready
  have hmake := eq_ok_of_toOption hmake
  obtain ⟨-, hlaw⟩ := calls_law hmake nofun
  obtain ⟨-, hagain, -, -⟩ := hlaw [.init]
  obtain ⟨-, -, hclosed, hended⟩ := hlaw [.init, .shutdown]
  exact ⟨r, hmake, hready, hagain.mpr ⟨by simp, by simp⟩, hclosed.mpr (by simp),
    (hended (by simp) [.init, .advance 10000, .shutdown]).2.1⟩

end Resolver

end FeatureFlags
