import FeatureFlags.Json.Token

/-!
# Json/Printer — writing a value

The compact text of a value is the concatenation of the texts of its tokens, with nothing between
them; members are written in the order of their keys.
-/

namespace FeatureFlags

namespace Json

mutual

/-- **The tokens of a value.** -/
def tokens : Json → List Token
  | null => [.null]
  | bool b => [.bool b]
  | num n => [.num n]
  | str s => [.str s]
  | arr items => .openBracket :: (itemTokens items ++ [.closeBracket])
  | obj members => .openBrace :: (memberTokens members ++ [.closeBrace])

/-- The items of an array, with the commas between them. -/
def itemTokens : List Json → List Token
  | [] => []
  | v :: rest => v.tokens ++ moreItems rest

def moreItems : List Json → List Token
  | [] => []
  | v :: rest => .comma :: (v.tokens ++ moreItems rest)

/-- The members of an object, with the commas between them. -/
def memberTokens : List (String × Json) → List Token
  | [] => []
  | (key, v) :: rest => .str key :: .colon :: (v.tokens ++ moreMembers rest)

def moreMembers : List (String × Json) → List Token
  | [] => []
  | (key, v) :: rest => .comma :: .str key :: .colon :: (v.tokens ++ moreMembers rest)

end

/-- The compact text, as characters. -/
def chars (v : Json) : List Char := v.tokens.flatMap Token.text

/-- **The compact text of a value.** -/
def print (v : Json) : String := String.ofList v.chars

/-- The text of an object's members, without the braces around them. -/
def memberText (members : List (String × Json)) : List Char :=
  (memberTokens members).flatMap Token.text

end Json

end FeatureFlags
