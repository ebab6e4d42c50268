import FeatureFlags.Sync.FileCourse
import Mathlib.Data.List.Induction
import Mathlib.Data.List.Nodup

/-!
# Proofs/Sync/FileCourse — a watch comes to the file as it is

The fingerprint is taken before the reading, so what a watch remembers may be older than what it read but
never newer (`FileCourse.Remembers`).  If a later look finds the remembered fingerprint again, and
no two versions have the same, nothing happened to the file since it was taken, and what was read is
what is there (`FileCourse.Remembers.text_eq`).  That is why a watch cannot miss a version that stays:
`FileCourse.converges`.
-/

namespace FeatureFlags

/-- **What is sent shows the file**: its content, or that there is none to be read. -/
inductive Payload.Shows : Option DiskFile → Payload → Prop
  | content {file : DiskFile} {text : String} (htext : file.text? = some text) :
    Shows (some file) (.data text ∅)
  | noText {file : DiskFile} {message : String} (hnone : file.text? = none) :
    Shows (some file) (.fault message)
  | absent {message : String} : Shows none (.fault message)

namespace Payload

variable {file : Option DiskFile}

theorem shows_data {text : String} (h : file.bind DiskFile.text? = some text) : Shows file (.data text ∅) := by
  obtain ⟨version, rfl, htext⟩ := Option.bind_eq_some_iff.mp h
  exact .content htext

theorem shows_fault (h : file.bind DiskFile.text? = none) (message : String) :
    Shows file (.fault message) := by
  cases file with
  | none => exact .absent
  | some version => exact .noText h

end Payload

/-! ## A look -/

namespace FileWatch

variable {w : FileWatch} {atLook atPrint atRead : Option DiskFile}

/-- A look is a visit during which nothing happens. -/
theorem look_eq_visit (w : FileWatch) (file : Option DiskFile) : w.look file = w.visit file file file := rfl

/-- **What a look comes to**: the fingerprint that is remembered after it, and what is sent. -/
inductive Finds (w : FileWatch) (atLook atPrint atRead : Option DiskFile) :
    Option Fingerprint → Option Payload → Prop
  /-- The version that was seen last. -/
  | same {file : DiskFile} (hlook : atLook = some file) (hseen : w.seen = some file.fingerprint) :
    Finds w atLook atPrint atRead w.seen none
  | text {text : String} (hlook : w.isFresh = true ∨ atLook.isSome)
      (hread : atRead.bind DiskFile.text? = some text) :
    Finds w atLook atPrint atRead (atPrint.map DiskFile.fingerprint) (some (.data text ∅))
  | trouble {message : String}
      (hnone : w.isFresh = false ∧ atLook = none ∨ atRead.bind DiskFile.text? = none) :
    Finds w atLook atPrint atRead none (some (.fault message))

theorem finds_reading (path : String) (hlook : w.isFresh = true ∨ atLook.isSome) :
    Finds w atLook atPrint atRead (reading path atPrint atRead).1 (some (reading path atPrint atRead).2) := by
  cases atRead with
  | none => exact .trouble (.inr rfl)
  | some file =>
    cases htext : file.text? with
    | none =>
      rw [reading, htext]
      exact .trouble (.inr htext)
    | some text =>
      rw [reading, htext]
      exact .text hlook htext

/-- **A look comes to one of these.** -/
theorem finds_visit (w : FileWatch) (atLook atPrint atRead : Option DiskFile) :
    Finds w atLook atPrint atRead (w.visit atLook atPrint atRead).1.seen
      (w.visit atLook atPrint atRead).2 := by
  rw [visit]
  cases hfresh : w.isFresh with
  | true => exact finds_reading w.path (.inl hfresh)
  | false =>
    cases atLook with
    | none => exact .trouble (.inl ⟨hfresh, rfl⟩)
    | some file =>
      by_cases hseen : w.seen = some file.fingerprint
      · simp only [Bool.false_eq_true, if_false, poll, if_pos hseen]
        exact .same rfl hseen
      · simp only [Bool.false_eq_true, if_false, poll, if_neg hseen]
        exact finds_reading w.path (.inr rfl)

end FileWatch

/-! ## Versions -/

theorem version?_fileAfter_concat (past : List FileChange) (last : FileChange) :
    fileAfter (past ++ [last]) = last.version? := by
  rw [fileAfter, List.getLast?_concat, Option.bind_some]

/-- **The version that is there was written last.** -/
theorem exists_of_fileAfter {past : List FileChange} {file : DiskFile} (h : fileAfter past = some file) :
    ∃ first, past = first ++ [.write file] := by
  obtain rfl | ⟨first, last, rfl⟩ := List.eq_nil_or_concat' past
  · cases h
  · rw [version?_fileAfter_concat] at h
    cases last with
    | write version =>
      obtain rfl := Option.some.inj h
      exact ⟨first, rfl⟩
    | remove => cases h

/-- **A fingerprint that is found again tells that nothing happened.** -/
theorem Distinguishable.eq_nil {earlier later : List FileChange} {file file' : DiskFile}
    (hdistinct : Distinguishable (earlier ++ later)) (hearlier : fileAfter earlier = some file)
    (hlater : fileAfter (earlier ++ later) = some file') (hsame : file.fingerprint = file'.fingerprint) :
    later = [] := by
  by_contra hne
  obtain ⟨rest, last, rfl⟩ := (List.eq_nil_or_concat' later).resolve_left hne
  obtain ⟨first, rfl⟩ := exists_of_fileAfter hearlier
  rw [← List.append_assoc, version?_fileAfter_concat] at hlater
  -- The two versions stand at different places of the row, with the same fingerprint.
  rw [Distinguishable, ← List.append_assoc, List.filterMap_append, List.map_append] at hdistinct
  refine (List.nodup_append.mp hdistinct).2.2 file.fingerprint ?_ file.fingerprint ?_ rfl
  · simp [FileChange.version?]
  · simp [hlater, hsame]

namespace FileCourse

/-- **What a watch remembers** of the past: a fingerprint, and the text that was read with it or after
it. -/
def Remembers (past : List FileChange) (print : Fingerprint) (text : String) : Prop :=
  ∃ earlier between later, past = earlier ++ (between ++ later) ∧
    (fileAfter earlier).map DiskFile.fingerprint = some print ∧
      (fileAfter (earlier ++ between)).bind DiskFile.text? = some text

variable {past : List FileChange} {print : Fingerprint} {text : String}

theorem Remembers.append (h : Remembers past print text) (more : List FileChange) :
    Remembers (past ++ more) print text := by
  obtain ⟨earlier, between, later, rfl, hprint, htext⟩ := h
  exact ⟨earlier, between, later ++ more, by simp only [List.append_assoc], hprint, htext⟩

/-- **If the remembered fingerprint is that of the file, the file has the text that was read.** -/
theorem Remembers.text_eq (h : Remembers past print text) (hdistinct : Distinguishable past)
    {file : DiskFile} (hfile : fileAfter past = some file) (hprint : file.fingerprint = print) :
    file.text? = some text := by
  obtain ⟨earlier, between, later, rfl, hearlier, htext⟩ := h
  obtain ⟨first, hfirst, rfl⟩ := Option.map_eq_some_iff.mp hearlier
  obtain ⟨rfl, rfl⟩ := List.append_eq_nil_iff.mp (hdistinct.eq_nil hfirst hfile hprint.symm)
  simp only [List.append_nil] at hfile htext
  rwa [hfile] at htext

/-! ## The course of a watch -/

variable {c : FileCourse}

/-- **A watch is in order**: what it remembers goes with what it sent last. -/
structure Sound (c : FileCourse) : Prop where
  of_fresh : c.watch.isFresh = true → c.sent = []
  of_seen : ∀ print, c.watch.seen = some print →
    ∃ text, c.sent.getLast? = some (.data text ∅) ∧ Remembers c.past print text

theorem sound_begin (path : String) (interval now : Nat) : (begin path interval now).Sound where
  of_fresh _ := rfl
  of_seen _ h := nomatch h

theorem finds_outcome (c : FileCourse) (v : FileVisit) :
    c.watch.Finds (fileAfter (c.past ++ v.beforeLook)) (fileAfter (c.past ++ v.beforeLook ++ v.beforePrint))
      (fileAfter (c.past ++ v.changes)) (c.visit v).watch.seen (c.payload? v) :=
  FileWatch.finds_visit ..

theorem past_visit (c : FileCourse) (v : FileVisit) :
    (c.visit v).past = c.past ++ v.beforeLook ++ v.beforePrint ++ v.beforeRead := by
  simp only [visit, FileVisit.changes, List.append_assoc]

theorem sent_visit (c : FileCourse) (v : FileVisit) :
    (c.visit v).sent = c.sent ++ (c.payload? v).toList := rfl

theorem getLast?_sent_visit {v : FileVisit} {payload : Payload} (h : c.payload? v = some payload) :
    (c.visit v).sent.getLast? = some payload := by
  rw [sent_visit, h, Option.toList_some, List.getLast?_concat]

/-- **A visit keeps a watch in order.** -/
theorem Sound.visit (h : c.Sound) (v : FileVisit) : (c.visit v).Sound where
  of_fresh h := nomatch h
  of_seen print hprint := by
    have hfinds := finds_outcome c v
    generalize hseen : (c.visit v).watch.seen = seen at hfinds hprint
    generalize hpayload : c.payload? v = payload at hfinds
    cases hfinds with
    | same hlook hsame =>
      obtain ⟨text, hlast, hremembers⟩ := h.of_seen print hprint
      refine ⟨text, ?_, hremembers.append v.changes⟩
      rw [sent_visit, hpayload, Option.toList_none, List.append_nil, hlast]
    | @text text hlook hread =>
      refine ⟨text, getLast?_sent_visit hpayload, c.past ++ v.beforeLook ++ v.beforePrint, v.beforeRead, [],
        ?_, hprint, ?_⟩
      · rw [List.append_nil]
        exact past_visit c v
      · rw [← past_visit]
        exact hread
    | trouble hnone => cases hprint

theorem sound_run (path : String) (interval now : Nat) (visits : List FileVisit) :
    ((begin path interval now).run visits).Sound := by
  induction visits using List.reverseRecOn with
  | nil => exact sound_begin path interval now
  | append_singleton visits v ih =>
    rw [run, List.foldl_append]
    exact ih.visit v

/-- **What can be read at a visit**: the content at the reading, of a file that is there at the look. -/
def readable? (c : FileCourse) (v : FileVisit) : Option String :=
  (fileAfter (c.past ++ v.beforeLook)).bind fun _ => (fileAfter (c.past ++ v.changes)).bind DiskFile.text?

/-- **What a watch does for whoever listens**, at a visit. -/
structure Converges (c : FileCourse) (v : FileVisit) : Prop where
  /-- After a visit to a file that stays as it is during the visit, the last that was sent shows it. -/
  current : v.IsStill → ∃ payload,
    (c.visit v).sent.getLast? = some payload ∧ payload.Shows (fileAfter (c.visit v).past)
  /-- A file that was read is not sent again while it is the one of which the fingerprint was taken. -/
  quiet : ∀ text metadata, c.payload? v = some (.data text metadata) → v.beforeRead = [] →
    ∀ count next, next.beforeLook = [] →
      ((c.visit v).run (List.replicate count .quiet)).payload? next = none
  /-- After a fault the file is sent as soon as it can be read, and until then there is a fault again. -/
  recovers : ∀ message, c.sent.getLast? = some (.fault message) →
    match c.readable? v with
    | some text => c.payload? v = some (.data text ∅)
    | none => ∃ message, c.payload? v = some (.fault message)

/-! ### A file that stays -/

theorem Sound.current (h : c.Sound) {v : FileVisit} (hdistinct : Distinguishable (c.visit v).past)
    (hstill : v.IsStill) : ∃ payload,
      (c.visit v).sent.getLast? = some payload ∧ payload.Shows (fileAfter (c.visit v).past) := by
  obtain ⟨hprint, hread⟩ := hstill
  have hfinds := finds_outcome c v
  have hlook : c.past ++ v.beforeLook = (c.visit v).past := by
    rw [past_visit, hprint, hread, List.append_nil, List.append_nil]
  change c.watch.Finds _ _ (fileAfter (c.visit v).past) _ _ at hfinds
  rw [hprint, List.append_nil, hlook] at hfinds
  generalize (c.visit v).watch.seen = seen at hfinds
  generalize hpayload : c.payload? v = payload at hfinds
  cases hfinds with
  | same hfile hseen =>
    -- Nothing is sent, and what was sent last is still right.
    obtain ⟨text, hlast, hremembers⟩ := h.of_seen _ hseen
    have htext : (fileAfter (c.visit v).past).bind DiskFile.text? = some text := by
      rw [hfile, Option.bind_some]
      exact (hremembers.append v.changes).text_eq hdistinct hfile rfl
    refine ⟨_, ?_, Payload.shows_data htext⟩
    rw [sent_visit, hpayload, Option.toList_none, List.append_nil, hlast]
  | text _ hread => exact ⟨_, getLast?_sent_visit hpayload, Payload.shows_data hread⟩
  | trouble hnone =>
    refine ⟨_, getLast?_sent_visit hpayload, Payload.shows_fault ?_ _⟩
    obtain ⟨-, hnone⟩ | hnone := hnone
    · rw [hnone, Option.bind_none]
    · exact hnone

/-- **The file is the one of which the fingerprint was taken.** -/
structure IsUpToDate (c : FileCourse) (file : DiskFile) : Prop where
  looked : c.watch.isFresh = false
  there : fileAfter c.past = some file
  seen : c.watch.seen = some file.fingerprint

theorem IsUpToDate.outcome {file : DiskFile} (h : c.IsUpToDate file) {v : FileVisit}
    (hlook : v.beforeLook = []) : (c.outcome v).1.seen = c.watch.seen ∧ c.payload? v = none := by
  rw [payload?, FileCourse.outcome, hlook, List.append_nil, h.there]
  simp [FileWatch.visit, FileWatch.poll, h.looked, h.seen]

theorem IsUpToDate.run_quiet {file : DiskFile} (h : c.IsUpToDate file) (count : Nat) :
    (c.run (List.replicate count .quiet)).IsUpToDate file := by
  induction count generalizing c with
  | zero => exact h
  | succ count ih =>
    refine ih ⟨rfl, ?_, (h.outcome rfl).1.trans h.seen⟩
    rw [past_visit]
    simpa [FileVisit.quiet] using h.there

theorem isUpToDate_visit {v : FileVisit} {text : String} {metadata : Metadata}
    (hsent : c.payload? v = some (.data text metadata)) (hread : v.beforeRead = []) :
    ∃ file, (c.visit v).IsUpToDate file := by
  have hfinds := finds_outcome c v
  have hprint : c.past ++ v.beforeLook ++ v.beforePrint = (c.visit v).past := by
    rw [past_visit, hread, List.append_nil]
  change c.watch.Finds _ _ (fileAfter (c.visit v).past) _ _ at hfinds
  rw [hprint, hsent] at hfinds
  generalize hseen : (c.visit v).watch.seen = seen at hfinds
  cases hfinds with
  | text _ htext =>
    obtain ⟨file, hfile, -⟩ := Option.bind_eq_some_iff.mp htext
    exact ⟨file, rfl, hfile, by rw [hseen, hfile, Option.map_some]⟩

/-! ### Trouble -/

theorem Sound.recovers (h : c.Sound) {message : String} (hlast : c.sent.getLast? = some (.fault message))
    (v : FileVisit) :
    match c.readable? v with
    | some text => c.payload? v = some (.data text ∅)
    | none => ∃ message, c.payload? v = some (.fault message) := by
  have hfresh : c.watch.isFresh = false := by
    refine eq_false_of_ne_true fun hfresh => ?_
    rw [h.of_fresh hfresh] at hlast
    cases hlast
  have hfinds := finds_outcome c v
  generalize (c.visit v).watch.seen = seen at hfinds
  generalize c.payload? v = payload at hfinds
  rw [readable?]
  cases hfinds with
  | same _ hseen =>
    obtain ⟨text, hdata, -⟩ := h.of_seen _ hseen
    cases hlast.symm.trans hdata
  | text hlook hread =>
    obtain ⟨file, hfile⟩ := Option.isSome_iff_exists.mp (hlook.resolve_left (hfresh ▸ Bool.false_ne_true))
    rw [hfile, Option.bind_some, hread]
  | trouble hnone =>
    obtain ⟨-, hnone⟩ | hnone := hnone
    · rw [hnone, Option.bind_none]
      exact ⟨_, rfl⟩
    · rw [hnone, Option.bind_fun_none]
      exact ⟨_, rfl⟩

/-- **A watch comes to the file as it is**, whatever happens to the file and whenever, as long as its
versions can be told from each other. -/
theorem converges (path : String) (interval now : Nat) (visits : List FileVisit) (v : FileVisit)
    (hdistinct : Distinguishable (((begin path interval now).run visits).visit v).past) :
    ((begin path interval now).run visits).Converges v := by
  have hsound := sound_run path interval now visits
  constructor
  case current => exact hsound.current hdistinct
  case quiet =>
    intro text metadata hsent hread count next hlook
    obtain ⟨file, huptodate⟩ := isUpToDate_visit hsent hread
    exact ((huptodate.run_quiet count).outcome hlook).2
  case recovers => exact fun message hlast => hsound.recovers hlast v

/-- The file is replaced after its fingerprint was taken and before it is read. -/
theorem converges_replaced :
    Distinguishable [.write ⟨1, [97]⟩, .write ⟨2, [98]⟩] ∧
      ∃ payload, (((begin "flags" 5 0).run [⟨[.write ⟨1, [97]⟩], [], [.write ⟨2, [98]⟩]⟩]).visit
          .quiet).sent.getLast? = some payload ∧ payload.Shows (some ⟨2, [98]⟩) := by
  have hdistinct : Distinguishable [.write ⟨1, [97]⟩, .write ⟨2, [98]⟩] := by decide
  exact ⟨hdistinct, (converges "flags" 5 0 [⟨[.write ⟨1, [97]⟩], [], [.write ⟨2, [98]⟩]⟩] .quiet
    hdistinct).current ⟨rfl, rfl⟩⟩

/-! ### Quiet times -/

/-- **Looks at a file that stays as it is** are quiet visits. -/
theorem run_replicate_quiet (c : FileCourse) (count : Nat) :
    c.run (List.replicate count .quiet) =
      ⟨(FileWatch.looks count c.watch (fileAfter c.past)).1, c.past,
        c.sent ++ (FileWatch.looks count c.watch (fileAfter c.past)).2⟩ := by
  induction count generalizing c with
  | zero => simp [run, FileWatch.looks]
  | succ count ih =>
    have hvisit : c.visit .quiet = ⟨(c.watch.look (fileAfter c.past)).1, c.past,
        c.sent ++ (c.watch.look (fileAfter c.past)).2.toList⟩ := by
      simp [visit, payload?, outcome, FileVisit.quiet, FileVisit.changes, FileWatch.look_eq_visit]
    rw [List.replicate_succ, run, List.foldl_cons, hvisit]
    refine (ih _).trans ?_
    rw [FileWatch.looks, List.append_assoc]

end FileCourse

end FeatureFlags
