import FeatureFlags.Json.Printer

/-!
# Targeting/Outcome — what the result of a rule means

A rule names a variant, or produces nothing, or produces a structure that can name none.  Scalars
name the variant that is spelled like them: `Json.nameText`.
-/

namespace FeatureFlags

namespace Number

/-- The numeral of a number: a whole one below `10 ^ 21` digit by digit, any other as plain text. -/
def nameText (n : Number) : String :=
  match n.int64? with
  | some i => toString i
  | none =>
    let x := n.toDouble
    if x.isWhole && x.units < Nat.pow 10 21 * Binary64.unitsPerOne then x.wholeText else x.plainText

end Number

namespace Json

mutual

/-- **The text by which a value names a variant.** -/
def nameText : Json → String
  | null => "null"
  | bool true => "true"
  | bool false => "false"
  | num n => n.nameText
  | str s => s
  | arr items => ",".intercalate (itemNames items)
  | obj _ => "[object Object]"

/-- The texts of the items of an array, in which null is empty. -/
def itemNames : List Json → List String
  | [] => []
  | null :: rest => "" :: itemNames rest
  | v :: rest => v.nameText :: itemNames rest

end

end Json

/-- **What a rule decided.** -/
inductive Outcome
  /-- The rule named a variant. -/
  | variant (name : String)
  /-- The rule produced nothing. -/
  | default
  /-- The rule produced a value that names no variant. -/
  | unusable (message : String)
  deriving DecidableEq, Inhabited, Repr

/-- **The decision in the result of a rule.**  Null and the empty text are no name. -/
def Outcome.ofResult : Option Json → Outcome
  | none => default
  | some .null => default
  | some (.str s) => if s.isEmpty then default else variant s
  | some (.bool b) => variant (Json.bool b).nameText
  | some (.num n) => variant n.nameText
  | some structured =>
    unusable ("targeting rule returned a structure instead of a variant name: " ++ structured.print)

end FeatureFlags
