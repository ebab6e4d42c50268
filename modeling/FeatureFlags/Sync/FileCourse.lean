import FeatureFlags.Sync.FileSource

/-!
# Sync/FileCourse — a file that changes under its watch

Others write the file, remove it and write it again while it is watched: before a look, between the look
and the taking of the fingerprint, and between that and the reading.  `FileCourse.visit` is one look, with
all that happens to the file up to its end, and a run is any row of such visits.  Nothing else is known of
the versions of the file than what its fingerprints tell; no two of them are the same when the versions
are `Distinguishable`.

`FileWatch.look` is a visit during which nothing happens.
-/

namespace FeatureFlags

/-! ## The file -/

/-- **What may happen to a file.** -/
inductive FileChange
  | write (version : DiskFile)
  | remove
  deriving DecidableEq, Inhabited, Repr

namespace FileChange

/-- What is there afterwards. -/
def version? : FileChange → Option DiskFile
  | write version => some version
  | remove => none

end FileChange

/-- **The file after a row of changes**; at first there is none. -/
def fileAfter (changes : List FileChange) : Option DiskFile := changes.getLast?.bind FileChange.version?

/-- **No version has a fingerprint that one before it had.** -/
def Distinguishable (changes : List FileChange) : Prop :=
  ((changes.filterMap FileChange.version?).map DiskFile.fingerprint).Nodup

instance (changes : List FileChange) : Decidable (Distinguishable changes) :=
  inferInstanceAs (Decidable (List.Nodup _))

/-! ## The watch -/

/-- **What happens to the file** around a look. -/
structure FileVisit where
  /-- Since the visit before. -/
  beforeLook : List FileChange
  beforePrint : List FileChange
  beforeRead : List FileChange
  deriving DecidableEq, Inhabited, Repr

namespace FileVisit

def changes (v : FileVisit) : List FileChange := v.beforeLook ++ v.beforePrint ++ v.beforeRead

/-- The file stays as it is during the visit. -/
def IsStill (v : FileVisit) : Prop := v.beforePrint = [] ∧ v.beforeRead = []

/-- A visit to a file to which nothing happens. -/
def quiet : FileVisit := ⟨[], [], []⟩

end FileVisit

/-- **The look that is due**, with the file as it is at each of its moments. -/
def FileWatch.visit (w : FileWatch) (atLook atPrint atRead : Option DiskFile) :
    FileWatch × Option Payload :=
  let (seen, payload) :=
    if w.isFresh then
      let (seen, payload) := reading w.path atPrint atRead
      (seen, some payload)
    else poll w.path w.seen atLook atPrint atRead
  ({ w with due := w.due + w.interval, isFresh := false, seen }, payload)

/-- **A watch, what happened to its file, and what was sent.** -/
structure FileCourse where
  watch : FileWatch
  past : List FileChange
  sent : List Payload
  deriving Inhabited

namespace FileCourse

def begin (path : String) (interval now : Nat) : FileCourse := ⟨.begin path interval now, [], []⟩

/-- What the watch does at a visit. -/
def outcome (c : FileCourse) (v : FileVisit) : FileWatch × Option Payload :=
  c.watch.visit (fileAfter (c.past ++ v.beforeLook)) (fileAfter (c.past ++ v.beforeLook ++ v.beforePrint))
    (fileAfter (c.past ++ v.changes))

/-- What is sent at a visit. -/
def payload? (c : FileCourse) (v : FileVisit) : Option Payload := (c.outcome v).2

/-- **A visit.** -/
def visit (c : FileCourse) (v : FileVisit) : FileCourse :=
  ⟨(c.outcome v).1, c.past ++ v.changes, c.sent ++ (c.payload? v).toList⟩

/-- **A row of visits.** -/
def run (c : FileCourse) (visits : List FileVisit) : FileCourse := visits.foldl visit c

end FileCourse

end FeatureFlags
