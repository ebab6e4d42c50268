import FeatureFlags.Json.Printer

/-!
# Document/Schema — the shape a configuration document should have

`Schema.violations` lists what is wrong with a document, flag by flag, each with the path of the
offending node.  A violation need not stop a document from being read; whether it does is up to the
reader.

`ViolationCache` remembers the answers for documents seen before, by a digest of their text.  It holds
at most `ViolationCache.capacity` of them and is emptied when full.
-/

namespace FeatureFlags

/-- **A fault in the shape of a document.** -/
structure Violation where
  path : String
  message : String
  deriving DecidableEq, Inhabited, Repr

namespace Violation

def display (v : Violation) : String := v.path ++ ": " ++ v.message

end Violation

namespace Schema

/-- A value that may be an annotation. -/
def isScalar : Json → Bool
  | .bool _ => true
  | .num _ => true
  | .str _ => true
  | _ => false

def metadataViolations (path : String) : Json → List Violation
  | .obj members =>
    members.filterMap fun (key, v) =>
      if isScalar v then none else some ⟨path ++ "/" ++ key, "metadata values must be scalars"⟩
  | _ => [⟨path, "must be an object"⟩]

def stateViolations (path : String) : Option Json → List Violation
  | some (.str "ENABLED") => []
  | some (.str "DISABLED") => []
  | _ => [⟨path, "must be ENABLED or DISABLED"⟩]

def variantsViolations (path : String) : Option Json → List Violation
  | some (.obj []) => [⟨path, "must declare at least one variant"⟩]
  | some (.obj _) => []
  | _ => [⟨path, "must be an object"⟩]

/-- The variants a default can name; none when the flag declares no proper ones. -/
def declaredVariants : Option Json → Option (List (String × Json))
  | some (.obj (first :: rest)) => some (first :: rest)
  | _ => none

def defaultViolations (path : String) (variants : Option (List (String × Json))) :
    Option Json → List Violation
  | none => []
  | some .null => []
  | some (.str name) =>
    match variants with
    | none => []
    | some declared =>
      if (valueAt? name declared).isSome then []
      else [⟨path, "variant `" ++ name ++ "` is not declared"⟩]
  | some _ => [⟨path, "must be a string or null"⟩]

def targetingViolations (path : String) : Option Json → List Violation
  | none => []
  | some .null => []
  | some (.obj _) => []
  | some _ => [⟨path, "must be an object"⟩]

/-- What is wrong with one flag. -/
def flagViolations (path : String) : Json → List Violation
  | .obj members =>
    let at? (name : String) : Option Json := valueAt? name members
    stateViolations (path ++ "/state") (at? "state") ++
      variantsViolations (path ++ "/variants") (at? "variants") ++
      defaultViolations (path ++ "/defaultVariant") (declaredVariants (at? "variants"))
        (at? "defaultVariant") ++
      targetingViolations (path ++ "/targeting") (at? "targeting") ++
      match at? "metadata" with
      | some metadata => metadataViolations (path ++ "/metadata") metadata
      | none => []
  | _ => [⟨path, "flag must be an object"⟩]

def flagsViolations : Option Json → List Violation
  | some (.obj flags) => flags.flatMap fun (key, flag) => flagViolations ("/flags/" ++ key) flag
  | some _ => [⟨"/flags", "must be an object"⟩]
  | none => [⟨"/flags", "is required"⟩]

def fragmentsViolations : Option Json → List Violation
  | none => []
  | some (.obj fragments) =>
    fragments.filterMap fun (name, fragment) =>
      if fragment.isObject then none
      else some ⟨"/$evaluators/" ++ name, "fragment must be an object"⟩
  | some _ => [⟨"/$evaluators", "must be an object"⟩]

/-- **What is wrong with a document**, in the order of its parts. -/
def violations : Json → List Violation
  | .obj members =>
    flagsViolations (valueAt? "flags" members) ++
      fragmentsViolations (valueAt? "$evaluators" members) ++
      match valueAt? "metadata" members with
      | some metadata => metadataViolations "/metadata" metadata
      | none => []
  | _ => [⟨"", "document must be an object"⟩]

end Schema

/-! ## Remembered answers -/

/-- **Violations of documents seen before**, by the digest of the text of the document. -/
structure ViolationCache where
  remembered : List (String × List Violation)
  deriving Inhabited, Repr

namespace ViolationCache

def capacity : Nat := 32

def empty : ViolationCache := ⟨[]⟩

def size (c : ViolationCache) : Nat := c.remembered.length

/-- Makes room for one more: a full cache is emptied. -/
def makeRoom (c : ViolationCache) : ViolationCache := if capacity ≤ c.size then empty else c

/-- **The violations of a document**, remembered or found, and the cache afterwards. -/
def consult (digest : String → String) (c : ViolationCache) (document : Json) :
    List Violation × ViolationCache :=
  let key := digest document.print
  match c.remembered.find? (·.1 == key) with
  | some (_, found) => (found, c)
  | none =>
    let found := Schema.violations document
    (found, ⟨(key, found) :: c.makeRoom.remembered⟩)

/-- … where the text is its own digest. -/
def violations (c : ViolationCache) (document : Json) : List Violation × ViolationCache :=
  c.consult id document

end ViolationCache

end FeatureFlags
