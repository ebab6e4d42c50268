import FeatureFlags.Proofs.Provider.Events
import FeatureFlags.Proofs.Store.Difference
import FeatureFlags.Provider.Herald
import FeatureFlags.Provider.Resolver

/-!
# Proofs/Provider/Herald — no change goes unannounced

As long as the herald does not cease, a listener is told of the statuses that found a place in the
channel, in their order, up to the ones still unread (`Herald.exists_passed`).  When each status found a
place and the channel is empty at both ends of the row, the listener was told of every replacement in it,
and the differences that the replacements made add up to the one between its ends
(`Herald.announced_between`).

Two things are not told of: a flag that differs from itself, while its table stays, and what is done after
the herald has ceased (`Herald.Unannounced`).
-/

namespace FeatureFlags

variable {parser : Parser}

/-! ## Operations -/

namespace Store

/-- **The table an operation installs**, if it installs one. -/
def Action.table? (parser : Parser) : Action → Option FlagSet
  | apply payload => payload.table? parser
  | replace next => some next
  | markStale _ => none
  | markError _ => none

theorem act_of_table {action : Action} {next : FlagSet} (h : action.table? parser = some next)
    (s : Store) : s.act parser action = s.replace next := by
  cases action with
  | apply payload => exact apply_of_table h s
  | replace other => exact congrArg s.replace (Option.some.inj h)
  | markStale message => cases h
  | markError message => cases h

theorem act_of_no_table {action : Action} (h : action.table? parser = none) (s : Store) :
    (s.act parser action).1 = s := by
  cases action with
  | apply payload => exact apply_of_no_table h s
  | replace next => cases h
  | markStale message => rfl
  | markError message => rfl

/-- **An operation announces the keys on which the table it installs differs** from the one before. -/
theorem contains_changed_act (s : Store) (action : Action) (key : String) :
    (s.act parser action).2.changed.contains key ↔
      ∃ next, action.table? parser = some next ∧ s.table.DiffersAt next key := by
  cases htable : action.table? parser with
  | some next =>
    rw [act_of_table htable]
    refine (FlagSet.contains_changedKeys s.table next key).trans ⟨fun h => ⟨next, rfl, h⟩, ?_⟩
    rintro ⟨other, hother, h⟩
    exact Option.some.inj hother ▸ h
  | none =>
    have hempty : (s.act parser action).2.changed = ∅ := by
      cases action with
      | apply payload => exact (reports_apply s payload).changed_eq_empty htable
      | replace next => cases htable
      | markStale message => rfl
      | markError message => rfl
    rw [hempty]
    exact iff_of_false Bool.false_ne_true fun ⟨_, h, _⟩ => nomatch h

end Store

/-! ## Events of a row -/

namespace Event

/-- **The changes told of a row of statuses** are those of each status. -/
theorem changed_mem_ofStatuses {isHealthy : Bool} {statuses : List Status} {names : List String} :
    changed names ∈ (ofStatuses isHealthy statuses).1 ↔
      ∃ status ∈ statuses, names ≠ [] ∧ names = status.changed.keys := by
  induction statuses generalizing isHealthy with
  | nil => exact iff_of_false List.not_mem_nil fun ⟨_, h, _⟩ => nomatch h
  | cons status rest ih =>
    rw [ofStatuses_cons, List.mem_append, ih, changed_mem_ofStatus, List.exists_mem_cons_iff]

/-- A key is named in a change if a status names it. -/
theorem exists_changed_mem_ofStatuses {isHealthy : Bool} {statuses : List Status} {key : String} :
    (∃ names, changed names ∈ (ofStatuses isHealthy statuses).1 ∧ key ∈ names) ↔
      ∃ status ∈ statuses, status.changed.contains key := by
  simp only [changed_mem_ofStatuses]
  constructor
  · rintro ⟨_, ⟨status, hmem, -, rfl⟩, hkey⟩
    exact ⟨status, hmem, KeyMap.mem_keys.mp hkey⟩
  · rintro ⟨status, hmem, hkey⟩
    have hkeys : key ∈ status.changed.keys := KeyMap.mem_keys.mpr hkey
    exact ⟨_, ⟨status, hmem, List.ne_nil_of_mem hkeys, rfl⟩, hkeys⟩

end Event

namespace Herald

/-! ## What a row of turns does -/

/-- **A row of turns does an operation**, and `g` is what it does it to. -/
inductive Does (parser : Parser) : Herald → List Turn → Herald → Store.Action → Prop
  | here (h : Herald) (action : Store.Action) (rest : List Turn) :
    Does parser h (.action action :: rest) h action
  | later {h g : Herald} {turn : Turn} {rest : List Turn} {action : Store.Action} :
    Does parser (h.turn parser turn) rest g action → Does parser h (turn :: rest) g action

/-- **There is a place for each status** at the time it is sent. -/
def HasRoom (parser : Parser) (h : Herald) (turns : List Turn) : Prop :=
  ∀ g action, Does parser h turns g action → g.channel.unread.length < StatusChannel.capacity

/-- **A replacement changed the key.** -/
def Altered (parser : Parser) (h : Herald) (turns : List Turn) (key : String) : Prop :=
  ∃ g action next, Does parser h turns g action ∧ action.table? parser = some next ∧
    g.store.table.DiffersAt next key

/-- **Nothing was installed.** -/
def IsQuiet (parser : Parser) (h : Herald) (turns : List Turn) : Prop :=
  ∀ g action, Does parser h turns g action → action.table? parser = none

/-- **The status of a turn**, if it finds a place. -/
def admitted (parser : Parser) (h : Herald) : Turn → List Status
  | .forward => []
  | .cease => []
  | .action action =>
    if h.channel.unread.length < StatusChannel.capacity then [(h.store.act parser action).2] else []

/-- **The statuses that found a place**, turn by turn. -/
def entered (parser : Parser) (h : Herald) : List Turn → List Status
  | [] => []
  | turn :: rest => admitted parser h turn ++ entered parser (h.turn parser turn) rest

variable {h g : Herald} {turns first second : List Turn}

theorem run_append (h : Herald) (first second : List Turn) :
    h.run parser (first ++ second) = (h.run parser first).run parser second := List.foldl_append

theorem HasRoom.tail {turn : Turn} (hroom : HasRoom parser h (turn :: turns)) :
    HasRoom parser (h.turn parser turn) turns :=
  fun g action hdoes => hroom g action (.later hdoes)

/-- **With room for all, what entered is what was announced.** -/
theorem exists_mem_entered (hroom : HasRoom parser h turns) {P : Status → Prop} :
    (∃ status ∈ entered parser h turns, P status) ↔
      ∃ g action, Does parser h turns g action ∧ P (g.store.act parser action).2 := by
  -- turn by turn: a status enters in the turn that announces it or, lacking room, never
  induction turns generalizing h with
  | nil => exact iff_of_false (fun ⟨_, h, _⟩ => nomatch h) fun ⟨_, _, h, _⟩ => nomatch h
  | cons turn rest ih =>
    have hlater (hturn : ∀ action, turn ≠ .action action) :
        (∃ g action, Does parser (h.turn parser turn) rest g action ∧ P (g.store.act parser action).2) ↔
          ∃ g action, Does parser h (turn :: rest) g action ∧ P (g.store.act parser action).2 := by
      constructor
      · exact fun ⟨g, action, hdoes, hP⟩ => ⟨g, action, .later hdoes, hP⟩
      · rintro ⟨g, action, _ | hdoes, hP⟩
        · exact absurd rfl (hturn action)
        · exact ⟨g, action, hdoes, hP⟩
    cases turn with
    | forward => exact (ih hroom.tail).trans (hlater nofun)
    | cease => exact (ih hroom.tail).trans (hlater nofun)
    | action action =>
      rw [entered, admitted, if_pos (hroom h action (.here h action rest)), List.singleton_append,
        List.exists_mem_cons_iff]
      refine (or_congr_right (ih hroom.tail)).trans ⟨?_, ?_⟩
      · rintro (hP | ⟨g, other, hdoes, hP⟩)
        · exact ⟨h, action, .here .., hP⟩
        · exact ⟨g, other, .later hdoes, hP⟩
      · rintro ⟨g, other, _ | hdoes, hP⟩
        · exact .inl hP
        · exact .inr ⟨g, other, hdoes, hP⟩

/-! ## The table -/

theorem store_forward (h : Herald) : h.forward.store = h.store := by
  rw [forward]
  split <;> rfl

/-- **A turn leaves the table or replaces it.** -/
theorem store_turn_cases (parser : Parser) (h : Herald) (turn : Turn) :
    ((h.turn parser turn).store = h.store ∧
        ∀ action, turn = .action action → action.table? parser = none) ∨
      ∃ action next, turn = .action action ∧ action.table? parser = some next ∧
        (h.turn parser turn).store.table = next := by
  cases turn with
  | forward => exact .inl ⟨store_forward h, fun _ heq => nomatch heq⟩
  | cease => exact .inl ⟨rfl, fun _ heq => nomatch heq⟩
  | action action =>
    cases htable : action.table? parser with
    | none =>
      refine .inl ⟨Store.act_of_no_table htable h.store, fun other heq => ?_⟩
      obtain rfl := Turn.action.inj heq
      exact htable
    | some next =>
      refine .inr ⟨action, next, rfl, htable, ?_⟩
      rw [Herald.turn, perform, Store.act_of_table htable, Store.replace]

theorem Altered.later {turn : Turn} {key : String}
    (haltered : Altered parser (h.turn parser turn) turns key) : Altered parser h (turn :: turns) key := by
  obtain ⟨g, action, next, hdoes, hnext, hdiffers⟩ := haltered
  exact ⟨g, action, next, .later hdoes, hnext, hdiffers⟩

/-- **Differences add up**: where the ends of a row of turns differ, a replacement made a difference,
unless nothing was installed at all. -/
theorem altered_or_isQuiet {key : String}
    (hdiffers : h.store.table.DiffersAt (h.run parser turns).store.table key) :
    Altered parser h turns key ∨ IsQuiet parser h turns ∧ (h.run parser turns).store = h.store := by
  induction turns generalizing h with
  | nil => exact .inr ⟨fun _ _ hdoes => (nomatch hdoes), rfl⟩
  | cons turn rest ih =>
    obtain ⟨hsame, hnone⟩ | ⟨action, next, rfl, htable, hnext⟩ := store_turn_cases parser h turn
    · obtain haltered | ⟨hquiet, hstore⟩ := @ih (h.turn parser turn) (by rwa [hsame])
      · exact .inl haltered.later
      · refine .inr ⟨?_, hstore.trans hsame⟩
        rintro g action (_ | hdoes)
        · exact hnone action rfl
        · exact hquiet g action hdoes
    · have hhere (hdiffers : h.store.table.DiffersAt next key) :
          Altered parser h (.action action :: rest) key :=
        ⟨h, action, next, .here h action rest, htable, hdiffers⟩
      obtain hfirst | hrest := hdiffers.of_trans next
      · exact .inl (hhere hfirst)
      · obtain haltered | ⟨-, hstore⟩ := @ih (h.turn parser (.action action)) (by rwa [hnext])
        · exact .inl haltered.later
        · -- The rest leaves `next` alone, so that this replacement made the whole difference.
          refine .inl (hhere ?_)
          rw [← hnext, ← hstore]
          exact hdiffers

/-! ## The channel and the listener -/

theorem isOpen_turn (parser : Parser) (hopen : h.channel.isOpen) {turn : Turn} (hstays : turn ≠ .cease) :
    (h.turn parser turn).channel.isOpen := by
  cases turn with
  | forward =>
    rw [Herald.turn, forward]
    split <;> exact hopen
  | cease => exact absurd rfl hstays
  | action action =>
    rw [Herald.turn, perform, StatusChannel.send]
    split <;> exact hopen

theorem isOpen_run (parser : Parser) (hopen : h.channel.isOpen) (hstays : .cease ∉ turns) :
    (h.run parser turns).channel.isOpen := by
  induction turns generalizing h with
  | nil => exact hopen
  | cons turn rest ih =>
    rw [List.mem_cons, not_or] at hstays
    obtain ⟨hturn, hrest⟩ := hstays
    exact ih (isOpen_turn parser hopen (Ne.symm hturn)) hrest

/-- **These statuses were passed on** between two times. -/
structure Passes (h g : Herald) (statuses : List Status) : Prop where
  heard : g.heard = h.heard ++ (Event.ofStatuses h.isHealthy statuses).1
  isHealthy : g.isHealthy = (Event.ofStatuses h.isHealthy statuses).2

theorem Passes.of_eq (hheard : g.heard = h.heard) (hhealthy : g.isHealthy = h.isHealthy) :
    Passes h g [] := ⟨hheard.trans (List.append_nil _).symm, hhealthy⟩

theorem Passes.trans {between : Herald} {later : List Status} {statuses : List Status}
    (hfirst : Passes h between statuses) (hlater : Passes between g later) :
    Passes h g (statuses ++ later) := by
  constructor
  · rw [hlater.heard, hfirst.heard, hfirst.isHealthy, Event.ofStatuses_append, List.append_assoc]
  · rw [hlater.isHealthy, hfirst.isHealthy, Event.ofStatuses_append]

theorem Passes.forward {status : Status} {unread : List Status}
    (hunread : h.channel.unread = status :: unread) : Passes h h.forward [status] := by
  rw [Herald.forward, hunread]
  exact ⟨congrArg _ (List.append_nil _).symm, rfl⟩

/-- **The accounts of a turn.**  What was unread and what entered was passed on, in its order, or is
unread. -/
theorem exists_passed_turn (parser : Parser) (hopen : h.channel.isOpen) {turn : Turn}
    (hstays : turn ≠ .cease) :
    ∃ passed, h.channel.unread ++ admitted parser h turn = passed ++ (h.turn parser turn).channel.unread ∧
      Passes h (h.turn parser turn) passed := by
  cases turn with
  | forward =>
    rw [admitted, List.append_nil, Herald.turn]
    cases hunread : h.channel.unread with
    | nil =>
      have hsame : h.forward = h := by rw [Herald.forward, hunread]
      rw [hsame]
      exact ⟨[], hunread.symm, .of_eq rfl rfl⟩
    | cons status unread =>
      refine ⟨[status], ?_, .forward hunread⟩
      rw [Herald.forward, hunread]
      rfl
  | cease => exact absurd rfl hstays
  | action action =>
    refine ⟨[], ?_, .of_eq rfl rfl⟩
    rw [admitted, List.nil_append, Herald.turn, perform, Outlet.unread_send hopen]
    split
    · rfl
    · exact List.append_nil _

/-- **… and of a row of turns.** -/
theorem exists_passed (parser : Parser) (hopen : h.channel.isOpen) (hstays : .cease ∉ turns) :
    ∃ passed, h.channel.unread ++ entered parser h turns = passed ++ (h.run parser turns).channel.unread ∧
      Passes h (h.run parser turns) passed := by
  induction turns generalizing h with
  | nil => exact ⟨[], List.append_nil _, .of_eq rfl rfl⟩
  | cons turn rest ih =>
    rw [List.mem_cons, not_or] at hstays
    obtain ⟨hturn, hrest⟩ := hstays
    obtain ⟨first, hfirst, hpasses⟩ := exists_passed_turn parser hopen (Ne.symm hturn)
    obtain ⟨later, hlater, hpasses'⟩ := ih (isOpen_turn parser hopen (Ne.symm hturn)) hrest
    refine ⟨first ++ later, ?_, hpasses.trans hpasses'⟩
    calc h.channel.unread ++ entered parser h (turn :: rest)
        = h.channel.unread ++ admitted parser h turn ++ entered parser (h.turn parser turn) rest :=
          (List.append_assoc ..).symm
      _ = first ++ ((h.turn parser turn).channel.unread ++ entered parser (h.turn parser turn) rest) := by
          rw [hfirst, List.append_assoc]
      _ = first ++ later ++ (h.run parser (turn :: rest)).channel.unread := by
          rw [hlater, List.append_assoc]
          rfl

/-! ## Changes -/

/-- A replacement changed the key if an announcement names it. -/
theorem altered_iff {key : String} :
    Altered parser h turns key ↔
      ∃ g action, Does parser h turns g action ∧ (g.store.act parser action).2.changed.contains key := by
  simp only [Altered, Store.contains_changed_act, exists_and_left]

/-- **With room for all, the keys that are told of what entered** are those that replacements changed. -/
theorem exists_changed_entered_iff (hroom : HasRoom parser h turns) (isHealthy : Bool) {key : String} :
    (∃ names, .changed names ∈ (Event.ofStatuses isHealthy (entered parser h turns)).1 ∧ key ∈ names) ↔
      Altered parser h turns key := by
  rw [Event.exists_changed_mem_ofStatuses, exists_mem_entered hroom, altered_iff]

/-- **No change goes unannounced** while there is a herald.  Between two times at which nothing is unread,
when no status was sent to a full channel, a listener was told of each key on which the tables of these
times differ, and of each key it was told a replacement changed that one.

A flag that differs from itself, by a NaN among its annotations, is not told of while its table stays. -/
theorem announced_between (parser : Parser) (first between : List Turn)
    (hstays : .cease ∉ first ++ between)
    (hdrained : (fresh.run parser first).channel.unread = [])
    (hroom : HasRoom parser (fresh.run parser first) between)
    (hdrained' : (fresh.run parser (first ++ between)).channel.unread = []) :
    ∃ told, (fresh.run parser (first ++ between)).heard = (fresh.run parser first).heard ++ told ∧
      (∀ key, (fresh.run parser first).store.table.DiffersAt
            (fresh.run parser (first ++ between)).store.table key →
          (∃ names, .changed names ∈ told ∧ key ∈ names) ∨
            IsQuiet parser (fresh.run parser first) between ∧
              (fresh.run parser first).store.table.DiffersAt (fresh.run parser first).store.table key) ∧
      ∀ names key, .changed names ∈ told → key ∈ names →
        Altered parser (fresh.run parser first) between key := by
  rw [List.mem_append, not_or] at hstays
  rw [run_append] at hdrained' ⊢
  generalize hstart : fresh.run parser first = h at *
  have hopen : h.channel.isOpen := hstart ▸ isOpen_run parser rfl hstays.1
  obtain ⟨passed, hpassed, hpasses⟩ := exists_passed parser hopen hstays.2
  obtain rfl : entered parser h between = passed := by
    simpa [hdrained, hdrained'] using hpassed
  refine ⟨_, hpasses.heard, fun key hdiffers => ?_, fun names key hmem hkey =>
    (exists_changed_entered_iff hroom h.isHealthy).mp ⟨names, hmem, hkey⟩⟩
  obtain haltered | ⟨hquiet, hstore⟩ := altered_or_isQuiet hdiffers
  · exact .inl ((exists_changed_entered_iff hroom h.isHealthy).mpr haltered)
  · exact .inr ⟨hquiet, hstore ▸ hdiffers⟩

/-- A table of one flag with these annotations. -/
def annotated (metadata : Metadata) : FlagSet :=
  ⟨KeyMap.ofList [("on", { Flag.bare .enabled "" with metadata })], ∅⟩

/-- One flag is declared, the source fails, and then the listener is told of both. -/
def failing : List Turn :=
  [.action (.replace (annotated ∅)), .action (.apply (.fault "away")), .forward, .forward]

/-- **The flag is named**, although trouble was announced before. -/
theorem announced_between_failing :
    ∃ names, Event.changed names ∈
        (fresh.run (.standard .none) ([.action (.markError "bad"), .forward] ++ failing)).heard ∧
      "on" ∈ names := by
  have hroom : HasRoom (.standard .none)
      (fresh.run (.standard .none) [.action (.markError "bad"), .forward]) failing := by
    rintro g action (_ | _ | _ | _ | ⟨⟨⟩⟩) <;> decide
  obtain ⟨told, hheard, htold, -⟩ :=
    announced_between (.standard .none) [.action (.markError "bad"), .forward] failing (by simp [failing])
      rfl hroom rfl
  obtain ⟨names, hmem, hkey⟩ | ⟨hquiet, -⟩ := htold "on" (by rw [FlagSet.DiffersAt]; decide)
  · exact ⟨names, hheard ▸ List.mem_append_right _ hmem, hkey⟩
  · cases hquiet _ _ (.here ..)

/-- A flag with a NaN among its annotations is declared and told of. -/
def declaringNan : List Turn :=
  [.action (.replace (annotated (KeyMap.ofList [("x", .double .nan)]))), .forward]

/-- **A change goes unannounced**: at two times nothing is unread, in between there was room for every
status, and the tables differ on a key, but the listener was told nothing. -/
structure Unannounced (parser : Parser) (first between : List Turn) (key : String) : Prop where
  drained : (fresh.run parser first).channel.unread = []
  room : HasRoom parser (fresh.run parser first) between
  drained' : (fresh.run parser (first ++ between)).channel.unread = []
  differs : (fresh.run parser first).store.table.DiffersAt
    (fresh.run parser (first ++ between)).store.table key
  untold : (fresh.run parser (first ++ between)).heard = (fresh.run parser first).heard

/-- **Two changes that go unannounced**: a flag that differs from itself, when nothing is done, and a flag
that is declared after the herald has ceased. -/
theorem unannounced_nan_ceased :
    Unannounced (.standard .none) declaringNan [] "on" ∧
      Unannounced (.standard .none) [] [.cease, .action (.replace (annotated ∅))] "on" := by
  have hceased : HasRoom (.standard .none) (fresh.run (.standard .none) [])
      [.cease, .action (.replace (annotated ∅))] := by
    rintro g action (_ | _ | ⟨⟨⟩⟩)
    decide
  refine ⟨⟨rfl, nofun, rfl, ?_, rfl⟩, rfl, hceased, rfl, ?_, rfl⟩
  all_goals
    rw [FlagSet.DiffersAt]
    decide

/-! ## The herald of a resolver

A resolver passes on all there is as soon as there is something, so what it does is a run of turns. -/

/-- Passing on as often as there are statuses passes all of them on. -/
theorem run_replicate_forward (h : Herald) :
    h.run parser (List.replicate h.channel.unread.length .forward) =
      ⟨h.store, h.channel.drain.2, (Event.ofStatuses h.isHealthy h.channel.unread).2,
        h.heard ++ (Event.ofStatuses h.isHealthy h.channel.unread).1⟩ := by
  obtain ⟨store, ⟨unread, isTaken, isOpen⟩, isHealthy, heard⟩ := h
  induction unread generalizing isHealthy heard with
  | nil => simp [run, Event.ofStatuses, StatusChannel.drain]
  | cons status rest ih =>
    rw [Event.ofStatuses_cons, ← List.append_assoc]
    exact ih _ _

end Herald

namespace Resolver

/-- **The herald of a resolver.** -/
def herald (r : Resolver) : Herald := ⟨r.store, r.channel, r.isHealthy, r.heard⟩

/-- **A resolver tells all that is unread**: its herald passes on as often as it can. -/
theorem herald_tell {r : Resolver} (hheld : r.channel.isHeld) :
    r.tell.herald = r.herald.run r.parser (List.replicate r.channel.unread.length .forward) := by
  rw [tell, if_pos hheld]
  exact (Herald.run_replicate_forward r.herald).symm

theorem isHeld_send {c : StatusChannel} (hheld : c.isHeld) (status : Status) : (c.send status).isHeld := by
  rw [StatusChannel.send]
  split <;> exact hheld

/-- **A change of the store is an operation**, and then everything is passed on. -/
theorem herald_changeStore {r : Resolver} (hheld : r.channel.isHeld) (action : Store.Action) :
    ∃ count, (r.changeStore (r.store.act r.parser action)).tell.herald =
      r.herald.run r.parser (.action action :: List.replicate count .forward) :=
  ⟨_, herald_tell (isHeld_send hheld _)⟩

/-- A delivery is such an operation, … -/
theorem herald_deliver {r : Resolver} (hheld : r.channel.isHeld) (payload : Payload) :
    ∃ count, (r.deliver payload).herald =
      r.herald.run r.parser (.action (.apply payload) :: List.replicate count .forward) :=
  herald_changeStore hheld (.apply payload)

/-- … and so is a configuration that is installed past the source. -/
theorem herald_configure {r : Resolver} (hheld : r.channel.isHeld) {text : String} {delivered : Metadata}
    {table : FlagSet} (hread : Store.read r.parser text delivered = .ok table) :
    ∃ count, (r.configure text delivered).2.herald =
      r.herald.run r.parser (.action (.replace table) :: List.replicate count .forward) := by
  rw [configure, Store.configure, hread]
  exact herald_changeStore hheld (.replace table)

end Resolver

end FeatureFlags
