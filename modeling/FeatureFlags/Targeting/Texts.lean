import FeatureFlags.Json.Printer

/-!
# Targeting/Texts — operators on texts and lists

Joining, cutting and searching of texts, and merging of lists.  A text is measured in characters.
-/

namespace FeatureFlags.Texts

/-! ## Joining -/

/-- A value inside a joined text: a text as it is, nothing for null, all else as JSON text. -/
def piece : Json → List Char
  | .null => []
  | .str s => s.toList
  | v => v.chars

/-- An argument of a joined text; the items of a list are joined one by one. -/
def pieces : Json → List Char
  | .arr items => items.flatMap piece
  | v => piece v

/-- **Joins values into a text.** -/
def concatenate (args : List Json) : Json := .str (String.ofList (args.flatMap pieces))

/-! ## Cutting -/

/-- The whole number that a value is, if it is one. -/
def whole? : Json → Option Int
  | .num n => n.int64?
  | _ => none

/-- The text that is cut. -/
def subject : Json → List Char
  | .str s => s.toList
  | v => v.chars

/-- Where a cut starts in a text of a given length; a negative start counts from its end. -/
def startOf (length : Nat) (start : Int) : Nat :=
  if start < 0 then ((length : Int) + start).toNat else min start.toNat length

/-- Where a cut ends; a negative length is a place counted from the end of the text. -/
def endOf (length start : Nat) : Option Int → Nat
  | none => length
  | some count => if count < 0 then ((length : Int) + count).toNat else start + count.toNat

/-- **Cuts a piece out of a text.** -/
def substring : List Json → Json
  | [] => .str ""
  | v :: rest =>
    let cs := subject v
    let start := startOf cs.length ((rest[0]?.bind whole?).getD 0)
    let stop := endOf cs.length start (rest[1]?.bind whole?)
    .str (String.ofList ((cs.take stop).drop start))

/-! ## Searching -/

/-- The part occurs somewhere in the text. -/
def occursIn (part : List Char) : List Char → Bool
  | [] => part.isEmpty
  | c :: cs => part.isPrefixOf (c :: cs) || occursIn part cs

/-- **The first value is part of the second**: a text of a text, or an item of a list. -/
def membership : Json → Json → Json
  | .str part, .str whole => .bool (occursIn part.toList whole.toList)
  | v, .arr items => .bool (items.any fun item => item == v)
  | _, _ => .bool false

/-- A value as a text; what is no text is empty. -/
def textOrEmpty (v : Json) : List Char := (v.string?.getD "").toList

def startsWith (whole part : Json) : Json :=
  .bool ((textOrEmpty part).isPrefixOf (textOrEmpty whole))

def endsWith (whole part : Json) : Json :=
  .bool ((textOrEmpty part).isSuffixOf (textOrEmpty whole))

/-! ## Lists -/

def isNull : Json → Bool
  | .null => true
  | _ => false

/-- **Puts lists together**, one level deep and without nulls. -/
def merge (args : List Json) : Json :=
  .arr ((args.flatMap fun
    | .arr items => items
    | v => [v]).filter fun v => !isNull v)

end FeatureFlags.Texts
