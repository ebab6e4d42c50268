import FeatureFlags.Json.Basic
import FeatureFlags.Text.Numeral

/-!
# Targeting/Lookup — dotted paths into a value

A path is cut at its dots; each segment names a member of an object or, as a numeral, an item of an
array.  The empty path is the whole value.  A path whose first segment is the name of one of the two
values of a reduction starts at that value.
-/

namespace FeatureFlags

namespace Json

/-- The segments of a path; the empty path has none. -/
def segments (path : String) : List String :=
  if path.isEmpty then [] else (path.toList.splitOn '.').map String.ofList

/-- The index that a segment writes. -/
def index? (segment : String) : Option Nat := Numeral.unsigned? Numeral.greatest64 segment.toList

/-- One segment further. -/
def child? (v : Json) (segment : String) : Option Json :=
  match v with
  | obj members => valueAt? segment members
  | arr items => (index? segment).bind fun i => items[i]?
  | _ => none

/-- The value at a row of segments. -/
def follow? (v : Json) (segments : List String) : Option Json := segments.foldlM child? v

/-- **The value at a path.** -/
def lookup? (v : Json) (path : String) : Option Json := v.follow? (segments path)

end Json

/-- Where a path starts: at the data in scope or at one of the two values of a reduction. -/
inductive Start
  | data
  | accumulator
  | current
  deriving DecidableEq, Inhabited, Repr

/-- **A path**: where it starts and the segments from there on. -/
structure Path where
  start : Start
  segments : List String
  deriving DecidableEq, Inhabited, Repr

namespace Path

/-- The segments after the name of a start; a lone dot after it adds none. -/
def afterName : List String → List String
  | [""] => []
  | segments => segments

/-- **The path that a text spells.** -/
def ofText (text : String) : Path :=
  match Json.segments text with
  | "accumulator" :: rest => ⟨.accumulator, afterName rest⟩
  | "current" :: rest => ⟨.current, afterName rest⟩
  | segments => ⟨.data, segments⟩

/-- All the data. -/
def whole : Path := ⟨.data, []⟩

/-- The path with the name of its start as a segment like any other. -/
def inData (p : Path) : List String :=
  match p.start with
  | .data => p.segments
  | .accumulator => "accumulator" :: p.segments
  | .current => "current" :: p.segments

end Path

end FeatureFlags
