import FeatureFlags.Proofs.Sync.Episodes

/-!
# Proofs/Sync/Reports — the first end is silent, the further ones are not

A client reports the end of an attempt exactly when another attempt has ended since the last
configuration (`Stream.silent_then_loud`).  Nothing else restores the silence: what is reported depends
on how many configurations each attempt brings and on how it ends, not on what else its stream brings,
nor on the annotations that are called for (`Stream.faults_congr`).
-/

namespace FeatureFlags

/-! ## What reports depend on -/

/-- The message of a report. -/
def Payload.fault? : Payload → Option String
  | fault message => some message
  | data _ _ => none

/-- The message of a report, among the acts of a client. -/
def StreamAct.fault? : StreamAct → Option String
  | call => none
  | send payload => payload.fault?

namespace Attempt

/-- **What reports depend on**: how many configurations an attempt brings, and how it ends. -/
def outline (a : Attempt) : Nat × Option AttemptEnd := (a.configurations.length, a.conclusion?)

variable {a a' : Attempt}

theorem arrivals_congr (h : a.outline = a'.outline) : a.arrivals = a'.arrivals := by
  have hlength : a.configurations.length = a'.configurations.length := congrArg Prod.fst h
  rw [arrivals, arrivals, List.map_const', List.map_const', hlength]

theorem conclusion?_congr (h : a.outline = a'.outline) : a.conclusion? = a'.conclusion? :=
  congrArg Prod.snd h

theorem milestones_congr (h : a.outline = a'.outline) : a.milestones = a'.milestones := by
  rw [milestones, milestones, arrivals_congr h]

theorem reports_congr (h : a.outline = a'.outline) (history : List Milestone) :
    a.reports history = a'.reports history := by
  rw [reports, reports, conclusion?_congr h, arrivals_congr h]

end Attempt

namespace Stream

/-- **What a client reports**, in order. -/
def faults (acts : List (Nat × StreamAct)) : List String := acts.filterMap (·.2.fault?)

/-- The reports of a run are those of its episodes; what is delivered is no report. -/
theorem faults_run (s : Settings) (service : Service) (draw : Nat → Nat) (now : Nat) :
    faults (run s service draw now) = (made service.attempts).zipIdx.flatMap fun e =>
      (e.1.reports (history service.attempts e.2)).filterMap (·.fault?) := by
  have hfaults : faults (run s service draw now) =
      ((run s service draw now).map (·.2)).filterMap (·.fault?) := by
    rw [faults, List.filterMap_map]
    rfl
  have hdeliveries (metadata : Metadata) (a : Attempt) :
      (a.deliveries metadata).filterMap (·.fault?) = [] := by
    rw [Attempt.deliveries, List.filterMap_map]
    exact List.filterMap_eq_nil_iff.mpr fun _ _ => rfl
  rw [hfaults, filterMap_acts_run rfl]
  refine List.flatMap_congr fun e _ => ?_
  rw [List.filterMap_append]
  exact congrArg (· ++ _) (hdeliveries _ e.1)

/-- **Reports depend on outlines only.** -/
theorem reports_of_outlines {attempts others : List Attempt} (before : List Milestone)
    (h : attempts.map (·.outline) = others.map (·.outline)) :
    (made attempts).zipIdx.flatMap (fun e => e.1.reports (before ++ history attempts e.2)) =
      (made others).zipIdx.flatMap fun e => e.1.reports (before ++ history others e.2) := by
  induction attempts generalizing others before with
  | nil =>
    obtain rfl : others = [] := by simpa using h.symm
    rfl
  | cons a rest ih =>
    obtain ⟨a', rest', rfl⟩ : ∃ a' rest', others = a' :: rest' :=
      List.exists_cons_of_ne_nil (by rintro rfl; cases h)
    obtain ⟨ha, hrest⟩ := List.cons.inj h
    have hlater := ih (before ++ a.milestones) hrest
    simp only [made_cons, history_cons, ← List.append_assoc]
    rw [← Attempt.reports_congr ha, ← Attempt.conclusion?_congr ha, ← Attempt.milestones_congr ha,
      hlater]
    rfl

/-- **What else a stream brings does not matter**, nor what annotations were called for. -/
theorem faults_congr (s : Settings) {service other : Service} (draw draw' : Nat → Nat) (now now' : Nat)
    (h : service.attempts.map (·.outline) = other.attempts.map (·.outline)) :
    faults (run s service draw now) = faults (run s other draw' now') := by
  have hreports := congrArg (List.filterMap (·.fault?)) (reports_of_outlines [] h)
  simp only [List.filterMap_flatMap, List.nil_append] at hreports
  rw [faults_run, faults_run, hreports]

/-- **The law of reports.**  A client goes through one episode for each attempt that is made: it calls,
delivers, and reports the end exactly when another attempt has ended since the last configuration, or
since the start; after the end it calls again.  What it reports depends on the configurations and the
ends of the attempts only.  Until it is stopped a client does all this, and then nothing. -/
theorem silent_then_loud (s : Settings) (service : Service) (draw : Nat → Nat) (now : Nat) :
    (run s service draw now).map (·.2) =
        (made service.attempts).zipIdx.flatMap (fun e =>
          episode (calledMetadata s service e.2) (history service.attempts e.2) e.1) ++
        lastCall service.attempts ∧
      (∀ other draw' now', service.attempts.map (·.outline) = other.attempts.map (·.outline) →
        faults (run s service draw now) = faults (run s other draw' now')) ∧
      ∀ time, ((StreamSource.started s service now).stop time).acts draw =
        (run s service draw now).takeWhile (·.1 < time) :=
  ⟨acts_run s service draw now, fun _ draw' now' => faults_congr s draw draw' now now',
    StreamSource.acts_stop⟩

/-- Of three ends after a configuration the last two are reported. -/
example : faults (run default ⟨fun _ => none, [.opened [⟨5, .configuration "" none⟩] (some 0),
      .opened [⟨1, .keepAlive⟩] (some 3), .refused .closed]⟩ (fun _ => 0) 0) =
    ["sync stream completed", "sync stream failed: resolver has been shut down"] := rfl

end Stream

end FeatureFlags
