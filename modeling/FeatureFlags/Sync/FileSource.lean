import FeatureFlags.Sync.Failure
import FeatureFlags.Sync.Payload
import FeatureFlags.Sync.Queue

/-!
# Sync/FileSource — configurations from a file

The file is read at the start and then looked at again and again.  It is read anew when its
fingerprint, the time of its last change and its length, differs from the one it had at the last
successful reading.  A file that is absent or no text is reported at every look.

Each look takes the file as it is at three moments, of which the file may be replaced in between:
when it is looked at, when its fingerprint is taken and when it is read.
-/

namespace FeatureFlags

/-- **A version of a file.** -/
structure DiskFile where
  /-- The time of the last change. -/
  modified : Int
  bytes : List UInt8
  deriving DecidableEq, Inhabited, Repr

/-- **What tells a version from another.** -/
structure Fingerprint where
  modified : Int
  length : Nat
  deriving DecidableEq, Inhabited, Repr

namespace DiskFile

def fingerprint (f : DiskFile) : Fingerprint := ⟨f.modified, f.bytes.length⟩

def text? (f : DiskFile) : Option String := String.fromUTF8? ⟨f.bytes.toArray⟩

end DiskFile

/-- **A watch over a file.** -/
structure FileWatch where
  path : String
  /-- The time between looks. -/
  interval : Nat
  /-- The time of the next look. -/
  due : Nat
  /-- The first look is still to come. -/
  isFresh : Bool
  /-- The fingerprint at the last reading, if that was successful. -/
  seen : Option Fingerprint
  deriving Inhabited, Repr

namespace FileWatch

def absent : String := "No such file or directory (os error 2)"

def notText : String := "stream did not contain valid UTF-8"

def unreadable (path cause : String) : Payload := .fault ("cannot read " ++ path ++ ": " ++ cause)

def unseen (path cause : String) : Payload := .fault ("cannot stat " ++ path ++ ": " ++ cause)

/-- **Takes the fingerprint and reads.**  A failed reading leaves no fingerprint. -/
def reading (path : String) (atPrint atRead : Option DiskFile) : Option Fingerprint × Payload :=
  match atRead with
  | none => (none, unreadable path absent)
  | some file =>
    match file.text? with
    | none => (none, unreadable path notText)
    | some text => (atPrint.map DiskFile.fingerprint, .data text ∅)

/-- **Looks at the file**, and reads it if it is not the version seen last. -/
def poll (path : String) (seen : Option Fingerprint) (atLook atPrint atRead : Option DiskFile) :
    Option Fingerprint × Option Payload :=
  match atLook with
  | none => (none, some (unseen path absent))
  | some file =>
    if seen = some file.fingerprint then (seen, none)
    else
      let (seen, payload) := reading path atPrint atRead
      (seen, some payload)

/-- A watch that begins at time `now`. -/
def begin (path : String) (interval now : Nat) : FileWatch := ⟨path, interval, now, true, none⟩

/-- **The look that is due**, with the file as it is then. -/
def look (w : FileWatch) (file : Option DiskFile) : FileWatch × Option Payload :=
  let (seen, payload) :=
    if w.isFresh then
      let (seen, payload) := reading w.path file file
      (seen, some payload)
    else poll w.path w.seen file file file
  ({ w with due := w.due + w.interval, isFresh := false, seen }, payload)

/-- How many looks are due before a time. -/
def looksBefore (w : FileWatch) (time : Nat) : Nat :=
  if time ≤ w.due then 0 else (time - w.due - 1) / w.interval + 1

/-- A number of looks at a file that stays as it is. -/
def looks : Nat → FileWatch → Option DiskFile → FileWatch × List Payload
  | 0, w, _ => (w, [])
  | n + 1, w, file =>
    let (w, payload) := w.look file
    let (w, rest) := looks n w file
    (w, payload.toList ++ rest)

end FileWatch

/-- **A source that watches a file**, from before its start until after its stop. -/
structure FileSource where
  path : String
  interval : Nat
  clock : Nat
  wasStarted : Bool
  /-- The watch, while it is kept. -/
  watch : Option FileWatch
  /-- What was sent, once there is a reader. -/
  queue : Option (Queue Payload)
  deriving Inhabited

namespace FileSource

def create (path : String) (interval : Nat) : FileSource := ⟨path, interval, 0, false, none, none⟩

/-- **Starts the watch**, which can be done once. -/
def start (s : FileSource) : Except Failure FileSource :=
  if s.wasStarted then .error .alreadyStarted
  else .ok { s with
    wasStarted := true
    watch := some (.begin s.path s.interval s.clock)
    queue := some ∅ }

/-- Makes a number of looks and sends what they give. -/
def makeLooks (s : FileSource) (n : Nat) (w : FileWatch) (file : Option DiskFile) : FileSource :=
  let (w, payloads) := FileWatch.looks n w file
  { s with watch := some w, queue := s.queue.map (·.sendAll payloads) }

/-- **Lets time pass** while the file stays as it is. -/
def advance (s : FileSource) (file : Option DiskFile) (time : Nat) : FileSource :=
  let clock := s.clock + time
  match s.watch with
  | none => { s with clock }
  | some w => { s.makeLooks (w.looksBefore clock) w file with clock }

/-- **Stops the watch.**  The first look is not left out. -/
def stop (s : FileSource) (file : Option DiskFile) : FileSource :=
  match s.watch with
  | none => s
  | some w =>
    let s := if w.isFresh then s.makeLooks 1 w file else s
    { s with watch := none, queue := s.queue.map Queue.dropSender }

/-- Reads what was sent. -/
def drain (s : FileSource) : List Payload × FileSource :=
  match s.queue with
  | none => ([], s)
  | some q => (q.drain.1, { s with queue := some q.drain.2 })

/-- The reader has nothing to expect any more. -/
def isClosed (s : FileSource) : Bool := s.queue.any Queue.isClosed

end FileSource

end FeatureFlags
