import FeatureFlags.Proofs.Collections.KeyMap
import FeatureFlags.Provider.Event
import Mathlib.Data.List.Basic
import Mathlib.Data.List.Induction

/-!
# Proofs/Provider/Events — the protocol of the events

A listener hears that the table is ready when it comes to be in order, and that it changed only while it
is.  `Event.Orderly` is the invariant: the one bit that is kept between statuses says what was told last,
through any row of them (`Event.orderly_ofStatuses`).  `Event.protocol` says what a listener may rely on,
event by event and status by status.
-/

namespace FeatureFlags

/-- Where an item stands in a row with one item more. -/
theorem split_concat {α : Type} {items first later : List α} {last item : α}
    (h : items ++ [last] = first ++ item :: later) :
    (items = first ∧ last = item ∧ later = []) ∨
      ∃ rest, later = rest ++ [last] ∧ items = first ++ item :: rest := by
  obtain rfl | ⟨rest, other, rfl⟩ := List.eq_nil_or_concat' later
  · obtain ⟨hfirst, hlast⟩ := List.append_inj' h rfl
    exact .inl ⟨hfirst, List.head_eq_of_cons_eq hlast, rfl⟩
  · rw [← List.cons_append, ← List.append_assoc] at h
    obtain ⟨hfirst, hlast⟩ := List.append_inj' h rfl
    obtain rfl := List.head_eq_of_cons_eq hlast
    exact .inr ⟨rest, rfl, hfirst⟩

/-! ## Rows of statuses -/

namespace Status

/-- A table was installed. -/
def isOk : Status → Bool
  | ok _ => true
  | _ => false

/-- **A table is awaited**: none was installed yet, or there was trouble since the last one. -/
inductive Unsettled (statuses : List Status) : Prop
  | unstarted (hnone : ∀ s ∈ statuses, s.isOk = false)
  | troubled {first later : List Status} {keys : KeySet} (hsplit : statuses = first ++ .ok keys :: later)
      (htrouble : later ≠ []) (hlater : ∀ s ∈ later, s.isOk = false)

/-- A row of statuses has a last table, or none. -/
theorem exists_last_ok (statuses : List Status) :
    (∀ s ∈ statuses, s.isOk = false) ∨ ∃ first keys later,
      statuses = first ++ .ok keys :: later ∧ ∀ s ∈ later, s.isOk = false := by
  induction statuses with
  | nil => exact .inl fun _ h => nomatch h
  | cons s rest ih =>
    obtain hnone | ⟨first, keys, later, rfl, hlater⟩ := ih
    · cases hs : s.isOk with
      | false => exact .inl (List.forall_mem_cons.mpr ⟨hs, hnone⟩)
      | true =>
        match s, hs with
        | .ok keys, _ => exact .inr ⟨[], keys, rest, rfl, hnone⟩
    · exact .inr ⟨s :: first, keys, later, rfl, hlater⟩

/-- **A table is awaited** unless the last status is one. -/
theorem unsettled_iff {statuses : List Status} :
    Unsettled statuses ↔ ∀ first keys, statuses ≠ first ++ [.ok keys] := by
  constructor
  · rintro (hnone | ⟨rfl, htrouble, hlater⟩) first keys heq
    · cases hnone (.ok keys) (by simp [heq])
    · obtain ⟨-, -, hnil⟩ | ⟨rest, rfl, -⟩ := split_concat heq.symm
      · exact htrouble hnil
      · cases hlater (.ok keys) (by simp)
  · intro hlast
    obtain hnone | ⟨first, keys, later, rfl, hlater⟩ := exists_last_ok statuses
    · exact .unstarted hnone
    · refine .troubled rfl ?_ hlater
      rintro rfl
      exact hlast first keys rfl

end Status

namespace Event

/-- Trouble is told. -/
def isTrouble : Event → Bool
  | stale _ => true
  | error _ => true
  | _ => false

/-- **The table was told to be ready**, and no trouble since. -/
def Settled (told : List Event) : Prop :=
  ∃ first later, told = first ++ ready :: later ∧ ∀ e ∈ later, e.isTrouble = false

/-! ## The invariant -/

variable {heard : List Event} {isHealthy : Bool}

theorem settled_concat_ready (heard : List Event) : Settled (heard ++ [ready]) :=
  ⟨heard, [], rfl, fun _ h => nomatch h⟩

theorem Settled.concat (h : Settled heard) {e : Event} (he : e.isTrouble = false) :
    Settled (heard ++ [e]) := by
  obtain ⟨first, later, rfl, hlater⟩ := h
  refine ⟨first, later ++ [e], by simp, fun other hother => ?_⟩
  obtain hother | hother := List.mem_append.mp hother
  · exact hlater other hother
  · exact List.mem_singleton.mp hother ▸ he

theorem not_settled_concat {e : Event} (he : e.isTrouble = true) : ¬ Settled (heard ++ [e]) := by
  rintro ⟨first, later, hsplit, hlater⟩
  obtain ⟨-, rfl, -⟩ | ⟨rest, rfl, -⟩ := split_concat hsplit
  · cases he
  · rw [hlater e (by simp)] at he
    cases he

/-- **What was told is in order**, with the bit that is kept: the table is told to be ready only while it
is not, and to have changed only while it is. -/
structure Orderly (heard : List Event) (isHealthy : Bool) : Prop where
  settled_iff : Settled heard ↔ isHealthy = true
  of_ready : ∀ first later, heard = first ++ ready :: later → ¬ Settled first
  of_changed : ∀ first names later, heard = first ++ changed names :: later → Settled first

theorem orderly_nil : Orderly [] false where
  settled_iff := iff_of_false (fun ⟨_, _, h, _⟩ => by simp at h) Bool.false_ne_true
  of_ready _ _ h := by simp at h
  of_changed _ _ _ h := by simp at h

/-- **One event more** is in order if it is told at a time for it. -/
theorem Orderly.concat (h : Orderly heard isHealthy) {e : Event} {isHealthy' : Bool}
    (hsettled : Settled (heard ++ [e]) ↔ isHealthy' = true) (hready : e = ready → ¬ Settled heard)
    (hchanged : ∀ names, e = changed names → Settled heard) : Orderly (heard ++ [e]) isHealthy' where
  settled_iff := hsettled
  of_ready first later hsplit := by
    obtain ⟨rfl, heq, -⟩ | ⟨rest, -, hrest⟩ := split_concat hsplit
    · exact hready heq
    · exact h.of_ready first rest hrest
  of_changed first names later hsplit := by
    obtain ⟨rfl, heq, -⟩ | ⟨rest, -, hrest⟩ := split_concat hsplit
    · exact hchanged names heq
    · exact h.of_changed first names rest hrest

theorem Orderly.ready (h : Orderly heard false) : Orderly (heard ++ [ready]) true :=
  h.concat (iff_of_true (settled_concat_ready heard) rfl)
    (fun _ hsettled => Bool.false_ne_true (h.settled_iff.mp hsettled)) (fun _ heq => nomatch heq)

theorem Orderly.changed (h : Orderly heard true) (names : List String) :
    Orderly (heard ++ [changed names]) true := by
  have hsettled : Settled heard := h.settled_iff.mpr rfl
  exact h.concat (iff_of_true (hsettled.concat rfl) rfl) (fun heq => nomatch heq) fun _ _ => hsettled

theorem Orderly.trouble (h : Orderly heard isHealthy) {e : Event} (he : e.isTrouble = true) :
    Orderly (heard ++ [e]) false := by
  refine h.concat (iff_of_false (not_settled_concat he) Bool.false_ne_true) ?_ fun names => ?_
  · rintro rfl
    cases he
  · rintro rfl
    cases he

/-- **A status keeps what is told in order.** -/
theorem Orderly.ofStatus (h : Orderly heard isHealthy) (status : Status) :
    Orderly (heard ++ (ofStatus isHealthy status).1) (ofStatus isHealthy status).2 := by
  cases status with
  | stale message => exact h.trouble rfl
  | error message => exact h.trouble rfl
  | ok keys =>
    have hready : Orderly (heard ++ if isHealthy then [] else [Event.ready]) true := by
      cases isHealthy with
      | true => simpa using h
      | false => exact h.ready
    rw [Event.ofStatus, ofChange, ← List.append_assoc]
    by_cases hkeys : keys.keys.isEmpty = true
    · rwa [if_pos hkeys, List.append_nil]
    · rw [if_neg hkeys]
      exact hready.changed _

/-- **… and so does a row of statuses.** -/
theorem Orderly.ofStatuses (h : Orderly heard isHealthy) (statuses : List Status) :
    Orderly (heard ++ (ofStatuses isHealthy statuses).1) (ofStatuses isHealthy statuses).2 := by
  induction statuses generalizing heard isHealthy with
  | nil => simpa [Event.ofStatuses] using h
  | cons status rest ih =>
    have hrest := ih (h.ofStatus status)
    rwa [List.append_assoc] at hrest

/-! ## What a status causes -/

theorem ofStatuses_cons (isHealthy : Bool) (status : Status) (rest : List Status) :
    ofStatuses isHealthy (status :: rest) =
      ((ofStatus isHealthy status).1 ++ (ofStatuses (ofStatus isHealthy status).2 rest).1,
        (ofStatuses (ofStatus isHealthy status).2 rest).2) := rfl

theorem ofStatuses_append (isHealthy : Bool) (first second : List Status) :
    ofStatuses isHealthy (first ++ second) =
      ((ofStatuses isHealthy first).1 ++ (ofStatuses (ofStatuses isHealthy first).2 second).1,
        (ofStatuses (ofStatuses isHealthy first).2 second).2) := by
  induction first generalizing isHealthy with
  | nil => rfl
  | cons status rest ih => rw [List.cons_append, ofStatuses_cons, ih, ofStatuses_cons, List.append_assoc]

theorem snd_ofStatus (isHealthy : Bool) (status : Status) :
    (ofStatus isHealthy status).2 = status.isOk := by
  cases status <;> rfl

theorem ready_mem_ofChange {isHealthy : Bool} {keys : List String} :
    ready ∈ ofChange isHealthy keys ↔ isHealthy = false := by
  cases isHealthy <;> cases keys <;> simp [ofChange]

theorem changed_mem_ofStatus {isHealthy : Bool} {status : Status} {names : List String} :
    changed names ∈ (ofStatus isHealthy status).1 ↔ names ≠ [] ∧ names = status.changed.keys := by
  cases status with
  | stale message => exact iff_of_false (by simp [ofStatus]) fun h => h.1 h.2
  | error message => exact iff_of_false (by simp [ofStatus]) fun h => h.1 h.2
  | ok keys =>
    rw [ofStatus, Status.changed]
    generalize keys.keys = all
    cases isHealthy <;> cases all <;> simp [ofChange] <;> grind

/-- What is told of one status, when it tells both. -/
theorem ready_changed_of_mem {isHealthy : Bool} {status : Status} {names : List String}
    (hready : ready ∈ (ofStatus isHealthy status).1)
    (hchanged : changed names ∈ (ofStatus isHealthy status).1) :
    (ofStatus isHealthy status).1 = [ready, changed names] := by
  obtain ⟨hnames, rfl⟩ := changed_mem_ofStatus.mp hchanged
  cases status with
  | stale message => exact absurd rfl hnames
  | error message => exact absurd rfl hnames
  | ok keys =>
    obtain rfl := ready_mem_ofChange.mp hready
    simp only [Status.changed] at hnames
    simp [ofStatus, ofChange, Status.changed, hnames]

/-- **All that is told of a row of statuses**, from the start on. -/
def told (statuses : List Status) : List Event := (ofStatuses false statuses).1

/-- **What a status causes** when others came before it. -/
def causedBy (before : List Status) (status : Status) : List Event :=
  (ofStatus (ofStatuses false before).2 status).1

theorem told_append_cons (before : List Status) (status : Status) (after : List Status) :
    ∃ later, told (before ++ status :: after) = told before ++ (causedBy before status ++ later) := by
  rw [told, ofStatuses_append, ofStatuses_cons]
  exact ⟨_, rfl⟩

/-- The bit is kept while the last status is a table. -/
theorem not_isHealthy_iff (statuses : List Status) :
    (ofStatuses false statuses).2 = false ↔ Status.Unsettled statuses := by
  rw [Status.unsettled_iff]
  obtain rfl | ⟨first, last, rfl⟩ := List.eq_nil_or_concat' statuses
  · exact iff_of_true rfl (by simp)
  · rw [ofStatuses_append, ofStatuses_cons]
    change (ofStatus _ last).2 = false ↔ _
    rw [snd_ofStatus]
    cases last with
    | ok keys => exact iff_of_false (fun h => nomatch h) fun h => h first keys rfl
    | stale message => exact iff_of_true rfl (by simp)
    | error message => exact iff_of_true rfl (by simp)

/-! ## The protocol -/

/-- **What a listener may rely on.** -/
structure Protocol (statuses : List Status) : Prop where
  /-- Each status has its events told in its turn. -/
  in_order : ∀ before status after, statuses = before ++ status :: after →
    ∃ later, told statuses = told before ++ (causedBy before status ++ later)
  /-- The first table is told to be ready before anything else is told of it. -/
  ready_first : ∀ before keys after, statuses = before ++ .ok keys :: after →
    (∀ s ∈ before, s.isOk = false) → (causedBy before (.ok keys)).head? = some ready
  /-- A table is told to be ready when one is awaited, and only then. -/
  ready_iff : ∀ before keys after, statuses = before ++ .ok keys :: after →
    (ready ∈ causedBy before (.ok keys) ↔ Status.Unsettled before)
  /-- Between two times that a table is ready there is trouble. -/
  trouble_between : ∀ first between later,
    told statuses = first ++ ready :: (between ++ ready :: later) → ∃ e ∈ between, e.isTrouble = true
  /-- A change is told only of a table that is ready, with no trouble since. -/
  settled_before : ∀ first names later, told statuses = first ++ changed names :: later → Settled first
  /-- A change names the keys of its status, if there are any, in their order, … -/
  changed_iff : ∀ before status after names, statuses = before ++ status :: after →
    (changed names ∈ causedBy before status ↔
      names ≠ [] ∧ names.Pairwise (· < ·) ∧ ∀ key, key ∈ names ↔ status.changed.contains key = true)
  /-- … and is told after the table is ready, if both are told of one status. -/
  ready_before : ∀ before status after names, statuses = before ++ status :: after →
    ready ∈ causedBy before status → changed names ∈ causedBy before status →
      causedBy before status = [ready, changed names]
  /-- Trouble is one event, with its message. -/
  of_stale : ∀ before message after, statuses = before ++ .stale message :: after →
    causedBy before (.stale message) = [stale message]
  of_error : ∀ before message after, statuses = before ++ .error message :: after →
    causedBy before (.error message) = [error message]

/-- **Every row of statuses is told by the protocol.** -/
theorem protocol (statuses : List Status) : Protocol statuses := by
  have horderly : Orderly (told statuses) (ofStatuses false statuses).2 :=
    orderly_nil.ofStatuses statuses
  constructor
  case in_order =>
    rintro before status after rfl
    exact told_append_cons before status after
  case ready_first =>
    intro before keys after _ hnone
    rw [causedBy, ofStatus, (not_isHealthy_iff before).mpr (.unstarted hnone)]
    rfl
  case ready_iff =>
    intro before keys after _
    rw [causedBy, ofStatus, ready_mem_ofChange, not_isHealthy_iff]
  case trouble_between =>
    intro first between later hsplit
    rw [← List.cons_append, ← List.append_assoc] at hsplit
    by_contra hnone
    -- Without trouble the table would still be settled at the second time.
    refine horderly.of_ready _ _ hsplit ⟨first, between, rfl, fun e he => ?_⟩
    exact eq_false_of_ne_true fun htrouble => hnone ⟨e, he, htrouble⟩
  case settled_before => exact horderly.of_changed
  case changed_iff =>
    intro before status after names _
    rw [causedBy, changed_mem_ofStatus, KeyMap.eq_keys_iff]
  case ready_before =>
    intro before status after names _
    exact ready_changed_of_mem
  case of_stale =>
    intros
    rfl
  case of_error =>
    intros
    rfl

end Event

end FeatureFlags
