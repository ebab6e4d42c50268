import FeatureFlags.Document.Fragments
import FeatureFlags.Document.Schema
import FeatureFlags.FlagSet
import FeatureFlags.Json.Reader

/-!
# Document/Parsing — from the text of a configuration to a table of flags

A configuration is a JSON object with the flags under `flags`, shared rule fragments under
`$evaluators` and annotations under `metadata`.  `Document.parse` reads the text, checks its shape
when asked to, inlines the fragments and decodes the flags in the order of their keys.
-/

namespace FeatureFlags

/-- **Why a document gives no table.** -/
inductive DocumentError
  | notJson
  | noFlags
  | badFlag (key : String) (cause : DecodeError)
  | badFragment (bad : Fragments.Bad)
  | violations (found : List Violation)
  deriving Inhabited, Repr

namespace DocumentError

def message : DocumentError → String
  | notJson => "invalid json"
  | noFlags => "configuration document has no `flags` object"
  | badFlag key cause => "invalid flag " ++ key ++ ": " ++ cause.message
  | badFragment bad => "invalid fragment " ++ bad.name ++ ": " ++ bad.message
  | violations found =>
    "configuration failed validation with " ++ toString found.length ++ " violation(s)"

end DocumentError

/-- **What to do about the shape of a document.** -/
inductive ShapeCheck
  /-- The shape is not looked at. -/
  | none
  /-- Violations are found, and do not stop the document. -/
  | lenient
  /-- A document with violations is refused. -/
  | strict
  deriving DecidableEq, Inhabited, Repr

/-- **What documents are parsed with.** -/
structure Parser where
  check : ShapeCheck
  /-- Why no pattern can be compiled for the references to a name, if so. -/
  refusal? : String → Option String

namespace Parser

/-- The parser whose patterns are limited in size. -/
def standard (check : ShapeCheck) : Parser := ⟨check, Fragments.tooBig?⟩

instance : Inhabited Parser := ⟨standard default⟩

end Parser

namespace Document

/-- The check to make with a validator at hand or not, strict or not. -/
def shapeCheck (validates strict : Bool) : ShapeCheck :=
  if validates then if strict then .strict else .lenient else .none

/-- Refuses a document whose shape is wrong, if the check says so. -/
def checkShape (check : ShapeCheck) (document : Json) : Except DocumentError Unit :=
  match check with
  | .strict =>
    match Schema.violations document with
    | [] => .ok ()
    | found => .error (.violations found)
  | _ => .ok ()

def decodeFlag (entry : String × Json) : Except DocumentError (String × Flag) :=
  match Flag.decode entry.2 with
  | .ok flag => .ok (entry.1, flag)
  | .error cause => .error (.badFlag entry.1 cause)

/-- The annotations of a document; what has no metadata form is left out. -/
def decodeMetadata : Option Json → Metadata
  | some (.obj members) => Metadata.ofMembers members
  | _ => ∅

/-- The table of a document without references. -/
def decode (document : Json) : Except DocumentError FlagSet :=
  match document.member? "flags" with
  | some (.obj flags) => do
    let decoded ← flags.mapM decodeFlag
    pure ⟨KeyMap.ofList decoded, decodeMetadata (document.member? "metadata")⟩
  | _ => .error .noFlags

def readText (cs : List Char) : Except DocumentError Json :=
  match (Token.ofText? cs).bind Json.ofTokens? with
  | some v => .ok v
  | none => .error .notJson

/-- The document with its references resolved.  One without fragments stays as it is. -/
def resolve (refusal? : String → Option String) (text : List Char) (document : Json)
    (members : List (String × Json)) : Except DocumentError Json :=
  match valueAt? "$evaluators" members with
  | some (.obj (first :: rest)) =>
    match Fragments.substitute refusal? (first :: rest) text with
    | .ok substituted => readText substituted
    | .error bad => .error (.badFragment bad)
  | _ => .ok document

/-- **The table of a text.** -/
def parse (parser : Parser) (text : String) : Except DocumentError FlagSet := do
  let document ← readText text.toList
  checkShape parser.check document
  match document with
  | .obj members => do
    let resolved ← resolve parser.refusal? text.toList document members
    decode resolved
  | _ => throw .noFlags

end Document

end FeatureFlags
