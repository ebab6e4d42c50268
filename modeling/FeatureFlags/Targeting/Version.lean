import FeatureFlags.Text.Blank
import FeatureFlags.Text.Numeral

/-!
# Targeting/Version — semantic versions and their precedence

A version has three numbers and possibly a pre-release, a list of identifiers.  Build metadata is
read and dropped: it never takes part in a comparison.  `Version.parse?` also accepts blanks around
a version, one `v` before it, and a version that leaves out its patch or its minor and patch.

Precedence is that of Semantic Versioning: by the numbers; then a pre-release is below its release;
then identifier by identifier, numbers before words and a longer list above its beginning.
-/

namespace FeatureFlags

/-- An identifier of a pre-release. -/
inductive Identifier
  | number (n : Nat)
  | word (letters : List Char)
  deriving DecidableEq, Inhabited, Repr

/-- **A version.** -/
structure Version where
  major : Nat
  minor : Nat
  patch : Nat
  /-- Empty for a release. -/
  preRelease : List Identifier
  deriving DecidableEq, Inhabited, Repr

/-! ## Precedence -/

namespace Identifier

/-- Numbers ascend and come before words, which ascend by their characters. -/
def compare : Identifier → Identifier → Ordering
  | number m, number n => Ord.compare m n
  | number _, word _ => .lt
  | word _, number _ => .gt
  | word a, word b => Ord.compare (String.ofList a) (String.ofList b)

/-- Lists of identifiers, one by one; a beginning comes before the whole. -/
def compareLists : List Identifier → List Identifier → Ordering
  | [], [] => .eq
  | [], _ :: _ => .lt
  | _ :: _, [] => .gt
  | a :: as, b :: bs => (a.compare b).then (compareLists as bs)

end Identifier

namespace Version

/-- A release comes after each of its pre-releases. -/
def comparePreReleases : List Identifier → List Identifier → Ordering
  | [], [] => .eq
  | [], _ :: _ => .gt
  | _ :: _, [] => .lt
  | as, bs => Identifier.compareLists as bs

/-- **Precedence.** -/
def compare (a b : Version) : Ordering :=
  (Ord.compare a.major b.major).then <| (Ord.compare a.minor b.minor).then <|
    (Ord.compare a.patch b.patch).then (comparePreReleases a.preRelease b.preRelease)

/-! ## Reading -/

/-- One of the three numbers: no leading zero, at most 64 bits. -/
def number? : List Char → Option Nat
  | ['0'] => some 0
  | '0' :: _ => none
  | cs => (Numeral.digits? cs).filter (· ≤ Numeral.greatest64)

def isIdentifierChar (c : Char) : Bool := c.isAlphanum || c = '-'

/-- A well-formed identifier of build metadata: not empty, letters, digits and hyphens. -/
def isBuildIdentifier (cs : List Char) : Bool := !cs.isEmpty && cs.all isIdentifierChar

/-- An identifier of a pre-release; one of digits alone is a number and has no leading zero. -/
def identifier? (cs : List Char) : Option Identifier :=
  if !isBuildIdentifier cs then none
  else match Numeral.digits? cs with
    | none => some (.word cs)
    | some n => if 1 < cs.length && cs.head? == some '0' then none else some (.number n)

/-- The text before a character and the text after it, if the character occurs. -/
def cutAt (mark : Char) (cs : List Char) : List Char × Option (List Char) :=
  match cs.dropWhile (· ≠ mark) with
  | [] => (cs, none)
  | _ :: rest => (cs.takeWhile (· ≠ mark), some rest)

/-- The pre-release of a version; an absent one is empty. -/
def preRelease? : Option (List Char) → Option (List Identifier)
  | none => some []
  | some cs => (cs.splitOn '.').mapM identifier?

/-- The build metadata is absent or well formed. -/
def buildOk : Option (List Char) → Bool
  | none => true
  | some cs => (cs.splitOn '.').all isBuildIdentifier

/-- A version written out in full. -/
def full? (cs : List Char) : Option Version :=
  let (main, build) := cutAt '+' cs
  let (core, suffix) := cutAt '-' main
  match (core.splitOn '.').mapM number?, preRelease? suffix with
  | some [major, minor, patch], some identifiers =>
    if buildOk build then some ⟨major, minor, patch, identifiers⟩ else none
  | _, _ => none

/-- Writes out the numbers that a version leaves out; they are zero. -/
def padded (cs : List Char) : List Char :=
  let isSuffixStart (c : Char) : Bool := c = '-' || c = '+'
  let core := cs.takeWhile fun c => !isSuffixStart c
  let suffix := cs.dropWhile fun c => !isSuffixStart c
  match (core.splitOn '.').length with
  | 1 => core ++ ['.', '0', '.', '0'] ++ suffix
  | 2 => core ++ ['.', '0'] ++ suffix
  | _ => cs

/-- The text without blanks around it and without one `v` before it. -/
def stripped (cs : List Char) : List Char :=
  match Blank.trim cs with
  | 'v' :: rest => rest
  | 'V' :: rest => rest
  | trimmed => trimmed

/-- **Reads a version.** -/
def parse? (text : String) : Option Version :=
  let cs := stripped text.toList
  full? cs <|> full? (padded cs)

end Version

/-! ## Comparing -/

/-- How two versions may be compared. -/
inductive VersionRelation
  | equal
  | unequal
  | less
  | atMost
  | greater
  | atLeast
  /-- The major numbers agree. -/
  | sameMajor
  /-- The major and the minor numbers agree. -/
  | sameMinor
  deriving DecidableEq, Inhabited, Repr

namespace VersionRelation

def ofText? : String → Option VersionRelation
  | "=" => some equal
  | "!=" => some unequal
  | "<" => some less
  | "<=" => some atMost
  | ">" => some greater
  | ">=" => some atLeast
  | "^" => some sameMajor
  | "~" => some sameMinor
  | _ => none

/-- **The relation holds.** -/
def holds (r : VersionRelation) (a b : Version) : Bool :=
  match r with
  | equal => a.compare b == .eq
  | unequal => a.compare b != .eq
  | less => a.compare b == .lt
  | atMost => a.compare b != .gt
  | greater => a.compare b == .gt
  | atLeast => a.compare b != .lt
  | sameMajor => a.major == b.major
  | sameMinor => a.major == b.major && a.minor == b.minor

end VersionRelation

end FeatureFlags
