import FeatureFlags.Proofs.Collections.KeyMap
import FeatureFlags.Store
import Mathlib.Data.List.Induction

/-!
# Proofs/Store/Run — what a row of deliveries leaves in force

A delivery that can be read gives a table (`Payload.table?`); every other one gives none.  At any
time of a run the store holds the table of the last delivery that gave one (`Outlet.holds_run`), and
each delivery announces one status, which agrees with what it did to the store
(`Store.announces_apply`).  A status is lost only when the channel is full.
-/

namespace FeatureFlags

/-! ## The keys on which two tables differ -/

namespace FlagSet

/-- The key is present in one table only, or defined otherwise in the other. -/
def DiffersAt (before after : FlagSet) (key : String) : Prop :=
  (after.get? key == before.get? key) = false

/-- **The changed keys are those on which the tables differ.** -/
theorem contains_changedKeys (before after : FlagSet) (key : String) :
    (before.changedKeys after).contains key ↔ before.DiffersAt after key := by
  have hb : before.flags.get? key = before.get? key := rfl
  have ha : after.flags.get? key = after.get? key := rfl
  simp only [changedKeys, DiffersAt, KeyMap.contains, KeyMap.get?_overlay, KeyMap.get?_filterMap,
    KeyMap.get?_filter, hb, ha]
  cases hbefore : before.get? key with
  | none => cases after.get? key <;> simp [Option.filter]
  | some flag =>
    cases hafter : after.get? key with
    | none => simp [Option.filter]
    | some other => cases hsame : other == flag <;> simp [Option.filter, hsame]

end FlagSet

/-! ## One delivery -/

namespace Payload

/-- **The table a delivery gives**, if it is a configuration that can be read. -/
def table? (parser : Parser) : Payload → Option FlagSet
  | data text metadata =>
    (Document.parse parser text).toOption.map (·.withDeliveryMetadata metadata)
  | fault _ => none

variable {parser : Parser}

theorem table?_of_parse {text : String} {metadata : Metadata} {parsed : FlagSet}
    (h : Document.parse parser text = .ok parsed) :
    (data text metadata).table? parser = some (parsed.withDeliveryMetadata metadata) := by
  rw [table?, h]
  rfl

/-- Deliveries that give no table do not matter. -/
theorem getLast?_of_none_later {first later : List Payload} {payload : Payload} {table : FlagSet}
    (hgives : payload.table? parser = some table) (hlater : ∀ p ∈ later, p.table? parser = none) :
    ((first ++ payload :: later).filterMap (table? parser)).getLast? = some table := by
  have hnone : later.filterMap (table? parser) = [] := List.filterMap_eq_nil_iff.mpr hlater
  rw [List.filterMap_append, List.filterMap_cons_some hgives, hnone, List.getLast?_concat]

end Payload

namespace Status

/-- **What a status has to say about a delivery** that found one table and left another. -/
inductive Reports (parser : Parser) (before after : FlagSet) : Payload → Status → Prop
  /-- A configuration that was read is announced with exactly the keys that changed. -/
  | installed {text : String} {metadata : Metadata} {parsed : FlagSet} {keys : KeySet}
      (read : Document.parse parser text = .ok parsed)
      (changed : ∀ key, keys.contains key ↔ before.DiffersAt after key) :
      Reports parser before after (.data text metadata) (.ok keys)
  /-- One that was not read is announced with the reason. -/
  | refused {text : String} {metadata : Metadata} {cause : DocumentError}
      (unread : Document.parse parser text = .error cause) :
      Reports parser before after (.data text metadata) (.error cause.message)
  /-- A fault of the source is passed on. -/
  | unwell {message : String} : Reports parser before after (.fault message) (.stale message)

/-- Only an installed table names keys. -/
theorem Reports.changed_eq_empty {parser : Parser} {before after : FlagSet} {payload : Payload}
    {status : Status} (h : Reports parser before after payload status)
    (hnone : payload.table? parser = none) : status.changed = ∅ := by
  cases h with
  | installed read _ => simp [Payload.table?, read, Except.toOption] at hnone
  | refused _ => rfl
  | unwell => rfl

end Status

namespace Store

variable {parser : Parser}

/-- A delivery that gives a table installs it. -/
theorem apply_of_table {payload : Payload} {table : FlagSet}
    (h : payload.table? parser = some table) (s : Store) :
    s.apply parser payload = s.replace table := by
  cases payload with
  | fault message => simp [Payload.table?] at h
  | data text metadata =>
    cases hparse : Document.parse parser text with
    | error cause => simp [Payload.table?, hparse, Except.toOption] at h
    | ok parsed =>
      simp only [Payload.table?, hparse, Except.toOption, Option.map_some, Option.some.injEq] at h
      simp [apply, configure, read, hparse, Except.map, h]

/-- **A delivery that gives none leaves the store alone.** -/
theorem apply_of_no_table {payload : Payload} (h : payload.table? parser = none) (s : Store) :
    (s.apply parser payload).1 = s := by
  cases payload with
  | fault message => rfl
  | data text metadata =>
    cases hparse : Document.parse parser text with
    | error cause => simp [apply, configure, read, hparse, Except.map]
    | ok parsed => simp [Payload.table?, hparse, Except.toOption] at h

/-- **Every delivery announces one status**, in agreement with what it did. -/
theorem reports_apply (s : Store) (payload : Payload) :
    Status.Reports parser s.table (s.apply parser payload).1.table payload
      (s.apply parser payload).2 := by
  cases payload with
  | fault message => exact .unwell
  | data text metadata =>
    cases hparse : Document.parse parser text with
    | error cause =>
      have happly : s.apply parser (.data text metadata) = (s, .error cause.message) := by
        simp [apply, configure, read, hparse, Except.map]
      rw [happly]
      exact .refused hparse
    | ok parsed =>
      rw [apply_of_table (Payload.table?_of_parse hparse)]
      exact .installed hparse (FlagSet.contains_changedKeys _ _)

end Store

/-! ## A run

Between deliveries whoever listens may read some of what was announced. -/

/-- **A store and the channel it announces on.** -/
structure Outlet where
  store : Store
  channel : StatusChannel

namespace Outlet

/-- What may happen to an outlet. -/
inductive Turn
  | delivery (payload : Payload)
  /-- So many of the oldest announcements are read. -/
  | reading (count : Nat)

def fresh : Outlet := ⟨∅, ∅⟩

/-- A delivery is applied and announced. -/
def deliver (parser : Parser) (o : Outlet) (payload : Payload) : Outlet :=
  ⟨(o.store.apply parser payload).1, o.channel.send (o.store.apply parser payload).2⟩

def read (o : Outlet) (count : Nat) : Outlet :=
  { o with channel := { o.channel with unread := o.channel.unread.drop count } }

def turn (parser : Parser) (o : Outlet) : Turn → Outlet
  | .delivery payload => o.deliver parser payload
  | .reading count => o.read count

/-- **A run from a fresh store.** -/
def run (parser : Parser) (turns : List Turn) : Outlet := turns.foldl (turn parser) fresh

/-- The deliveries of a run. -/
def deliveries (turns : List Turn) : List Payload :=
  turns.filterMap fun
    | .delivery payload => some payload
    | .reading _ => none

/-- The table of the last delivery that gave one. -/
def lastTable? (parser : Parser) (turns : List Turn) : Option FlagSet :=
  ((deliveries turns).filterMap (Payload.table? parser)).getLast?

variable {parser : Parser}

theorem run_concat (turns : List Turn) (last : Turn) :
    run parser (turns ++ [last]) = (run parser turns).turn parser last := by
  rw [run, run, List.foldl_append, List.foldl_cons, List.foldl_nil]

theorem lastTable?_append_delivery (turns : List Turn) (payload : Payload) :
    lastTable? parser (turns ++ [.delivery payload]) =
      (payload.table? parser).or (lastTable? parser turns) := by
  cases h : payload.table? parser <;> simp [lastTable?, deliveries, h]

theorem lastTable?_append_reading (turns : List Turn) (count : Nat) :
    lastTable? parser (turns ++ [.reading count]) = lastTable? parser turns := by
  simp [lastTable?, deliveries]

theorem lastTable?_of_none_later {payload : Payload} {table : FlagSet}
    (hgives : payload.table? parser = some table) (before : List Turn) {after : List Turn}
    (hafter : ∀ p ∈ deliveries after, p.table? parser = none) :
    lastTable? parser (before ++ .delivery payload :: after) = some table := by
  have hdeliveries : deliveries (before ++ .delivery payload :: after) =
      deliveries before ++ payload :: deliveries after := List.filterMap_append
  rw [lastTable?, hdeliveries, Payload.getLast?_of_none_later hgives hafter]

/-- **A store holds a table**: that one is in force, and without one nothing ever was. -/
def Holds (s : Store) (table : Option FlagSet) : Prop :=
  s.table = table.getD ∅ ∧ s.isReady = table.isSome

theorem Holds.table? {s : Store} {table : Option FlagSet} (h : Holds s table) : s.table? = table := by
  obtain ⟨htable, hready⟩ := h
  rw [Store.table?, htable, hready]
  cases table <;> rfl

theorem Holds.deliver {o : Outlet} {table : Option FlagSet} (h : Holds o.store table)
    (payload : Payload) :
    Holds (o.deliver parser payload).store ((payload.table? parser).or table) := by
  cases hnew : payload.table? parser with
  | none => simpa [Outlet.deliver, Store.apply_of_no_table hnew] using h
  | some new => simp [Outlet.deliver, Store.apply_of_table hnew, Store.replace, Holds]

/-- **At any time of a run the last table that was delivered is in force.** -/
theorem holds_run (turns : List Turn) : Holds (run parser turns).store (lastTable? parser turns) := by
  induction turns using List.reverseRecOn with
  | nil => exact ⟨rfl, rfl⟩
  | append_singleton turns last ih =>
    rw [run_concat]
    cases last with
    | reading count => exact lastTable?_append_reading turns count ▸ ih
    | delivery payload => exact lastTable?_append_delivery turns payload ▸ ih.deliver payload

/-- The channel of a run stays open, since nobody gives up its receiving end. -/
theorem isOpen_run (turns : List Turn) : (run parser turns).channel.isOpen := by
  induction turns using List.reverseRecOn with
  | nil => rfl
  | append_singleton turns last ih =>
    rw [run_concat]
    cases last with
    | reading count => exact ih
    | delivery payload =>
      simp only [turn, deliver, StatusChannel.send]
      split <;> exact ih

/-- **A status is lost only when the channel is full.** -/
theorem unread_send {c : StatusChannel} (hopen : c.isOpen) (status : Status) :
    (c.send status).unread =
      if c.unread.length < StatusChannel.capacity then c.unread ++ [status] else c.unread := by
  by_cases hfull : c.unread.length < StatusChannel.capacity <;>
    simp [StatusChannel.send, hopen, hfull]

/-- **The run law of a store.**  At any time the table in force is the one of the last delivery that
could be read, and the store is ready exactly when there was one.  The next delivery sends one
status, which reports what it does; a delivery that gives no table does nothing else, and its status
names no keys. -/
theorem run_law (parser : Parser) (turns : List Turn) :
    Holds (run parser turns).store (lastTable? parser turns) ∧
      ∀ payload, ∃ status,
        Status.Reports parser (run parser turns).store.table
            ((run parser turns).deliver parser payload).store.table payload status ∧
          ((run parser turns).deliver parser payload).channel.unread =
            (if (run parser turns).channel.unread.length < StatusChannel.capacity then
              (run parser turns).channel.unread ++ [status]
            else (run parser turns).channel.unread) ∧
          (payload.table? parser = none →
            ((run parser turns).deliver parser payload).store = (run parser turns).store ∧
              status.changed = ∅) := by
  refine ⟨holds_run turns, fun payload => ⟨_, Store.reports_apply _ payload, ?_, fun hnone => ?_⟩⟩
  · exact unread_send (isOpen_run turns) _
  · exact ⟨Store.apply_of_no_table hnone _, (Store.reports_apply _ payload).changed_eq_empty hnone⟩

end Outlet

end FeatureFlags
