import FeatureFlags.Json.Printer
import FeatureFlags.Text.Blank

/-!
# Document/Fragments — inlining shared rule fragments into the text of a document

A document may declare rule fragments by name and refer to one by `"$ref": "name"`.  References are
resolved in the text: each is replaced by the members of the fragment, so that the braces around the
reference come to enclose them.  Blanks may stand around the colon; the name is compared with the
text as it is written.

Fragments are applied in the order of their names, each to the whole text the others have left.  A
fragment is refused if it is no object, or if no pattern can be compiled for the references to it.
-/

namespace FeatureFlags

namespace Fragments

/-- What is left of a text behind a given beginning. -/
def dropBeginning? : List Char → List Char → Option (List Char)
  | [], cs => some cs
  | b :: bs, c :: cs => if b = c then dropBeginning? bs cs else none
  | _ :: _, [] => none

/-- The key of a reference, as it is written. -/
def referenceKey : List Char := ['"', '$', 'r', 'e', 'f', '"']

/-- What is left of a text behind a reference to `name` at its front. -/
def dropReference? (name : List Char) (cs : List Char) : Option (List Char) := do
  let rest ← dropBeginning? referenceKey cs
  let rest ← dropBeginning? [':'] (rest.dropWhile Blank.isBlank)
  dropBeginning? ('"' :: (name ++ ['"'])) (rest.dropWhile Blank.isBlank)

/-- Replaces the references from some place on; the first `skip` characters belong to a reference
that has been replaced already. -/
def replaceFrom (name body : List Char) : Nat → List Char → List Char
  | _, [] => []
  | skip + 1, _ :: cs => replaceFrom name body skip cs
  | 0, c :: cs =>
    match dropReference? name (c :: cs) with
    | some rest => body ++ replaceFrom name body (cs.length - rest.length) cs
    | none => c :: replaceFrom name body 0 cs

/-- **Replaces every reference to `name`** by `body`. -/
def replace (name body cs : List Char) : List Char := replaceFrom name body 0 cs

/-- **A fragment that is refused**, and why. -/
structure Bad where
  name : String
  message : String
  deriving Inhabited, Repr

/-- **Applies the fragments in turn.**  `refusal?` says why the pattern for the references to a name does
not compile, if so. -/
def substitute (refusal? : String → Option String) :
    List (String × Json) → List Char → Except Bad (List Char)
  | [], cs => .ok cs
  | (name, .obj members) :: rest, cs =>
    match refusal? name with
    | some message => .error ⟨name, message⟩
    | none => substitute refusal? rest (replace name.toList (Json.memberText members) cs)
  | (name, _) :: _, _ => .error ⟨name, "fragment must be an object"⟩

/-- The bytes that a compiled pattern may take. -/
def patternLimit : Nat := 10485760

/-- About the bytes that the pattern takes which looks for a name: a state for each byte of it. -/
def patternSize (name : String) : Nat := 32 * name.utf8ByteSize

/-- **A pattern is refused for its size.** -/
def tooBig? (name : String) : Option String :=
  if patternSize name ≤ patternLimit then none
  else some ("Compiled regex exceeds size limit of " ++ toString patternLimit ++ " bytes.")

end Fragments

end FeatureFlags
