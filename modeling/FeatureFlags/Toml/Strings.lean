import FeatureFlags.Text.Hex

/-!
# Toml/Strings — texts as TOML writes them

A text stands between quotes, with escapes between double ones and without any between single ones.
Between three quotes it may run over several lines; a line end right after the opening quotes is not
part of it, and a backslash at the end of a line removes the blanks and line ends that follow.
Control characters other than the tab stand nowhere in a text.
-/

namespace FeatureFlags.Toml

/-- A character that may stand in a text or a comment. -/
def isPrintable (c : Char) : Bool := c = '\t' || (0x20 ≤ c.toNat && c.toNat != 0x7F)

/-- The character of a code point given by digits. -/
def codePoint? (digits : List Char) : Option Char :=
  match Hex.nat? digits with
  | none => none
  | some n =>
    if n < 0xD800 ∨ (0xE000 ≤ n ∧ n < 0x110000) then some (Char.ofNat n) else none

def shortEscape? : Char → Option Char
  | 'b' => some '\x08'
  | 't' => some '\t'
  | 'n' => some '\n'
  | 'f' => some '\x0c'
  | 'r' => some '\r'
  | '"' => some '"'
  | '\\' => some '\\'
  | _ => none

/-- What a text has given so far, with what is left of the input. -/
abbrev Read := Option (List Char × List Char)

/-- One more character in front of what is read. -/
def put (c : Char) (r : Read) : Read := r.map fun (cs, rest) => (c :: cs, rest)

def putIf (c? : Option Char) (r : Read) : Read :=
  match c? with
  | some c => put c r
  | none => none

/-- A text on one line between double quotes, behind the opening one. -/
def basicText : List Char → Read
  | [] => none
  | '"' :: rest => some ([], rest)
  | '\\' :: 'u' :: a :: b :: c :: d :: rest => putIf (codePoint? [a, b, c, d]) (basicText rest)
  | '\\' :: 'U' :: a :: b :: c :: d :: e :: f :: g :: h :: rest =>
    putIf (codePoint? [a, b, c, d, e, f, g, h]) (basicText rest)
  | '\\' :: c :: rest => putIf (shortEscape? c) (basicText rest)
  | c :: rest => if isPrintable c then put c (basicText rest) else none

/-- A text on one line between single quotes, behind the opening one. -/
def literalText : List Char → Read
  | [] => none
  | '\'' :: rest => some ([], rest)
  | c :: rest => if isPrintable c then put c (literalText rest) else none

/-- What a text of several lines is in the middle of. -/
inductive Folding
  | none
  /-- Behind a backslash that must be followed by a line end. -/
  | pending
  /-- Removing blanks and line ends. -/
  | removing
  deriving DecidableEq

/-- A text of several lines between double quotes, behind the opening ones. -/
def longText : Folding → List Char → Read
  | .pending, ' ' :: rest => longText .pending rest
  | .pending, '\t' :: rest => longText .pending rest
  | .pending, '\n' :: rest => longText .removing rest
  | .pending, '\r' :: '\n' :: rest => longText .removing rest
  | .pending, _ => none
  | .removing, ' ' :: rest => longText .removing rest
  | .removing, '\t' :: rest => longText .removing rest
  | .removing, '\n' :: rest => longText .removing rest
  | .removing, '\r' :: '\n' :: rest => longText .removing rest
  | _, '"' :: '"' :: '"' :: '"' :: '"' :: rest => some (['"', '"'], rest)
  | _, '"' :: '"' :: '"' :: '"' :: rest => some (['"'], rest)
  | _, '"' :: '"' :: '"' :: rest => some ([], rest)
  | _, '\\' :: 'u' :: a :: b :: c :: d :: rest =>
    putIf (codePoint? [a, b, c, d]) (longText .none rest)
  | _, '\\' :: 'U' :: a :: b :: c :: d :: e :: f :: g :: h :: rest =>
    putIf (codePoint? [a, b, c, d, e, f, g, h]) (longText .none rest)
  | _, '\\' :: ' ' :: rest => longText .pending rest
  | _, '\\' :: '\t' :: rest => longText .pending rest
  | _, '\\' :: '\n' :: rest => longText .removing rest
  | _, '\\' :: '\r' :: '\n' :: rest => longText .removing rest
  | _, '\\' :: c :: rest => putIf (shortEscape? c) (longText .none rest)
  | _, '\n' :: rest => put '\n' (longText .none rest)
  | _, '\r' :: '\n' :: rest => put '\n' (longText .none rest)
  | _, c :: rest => if isPrintable c then put c (longText .none rest) else none
  | _, [] => none

/-- A text of several lines between single quotes, behind the opening ones. -/
def longLiteral : List Char → Read
  | '\'' :: '\'' :: '\'' :: '\'' :: '\'' :: rest => some (['\'', '\''], rest)
  | '\'' :: '\'' :: '\'' :: '\'' :: rest => some (['\''], rest)
  | '\'' :: '\'' :: '\'' :: rest => some ([], rest)
  | '\n' :: rest => put '\n' (longLiteral rest)
  | '\r' :: '\n' :: rest => put '\n' (longLiteral rest)
  | c :: rest => if isPrintable c then put c (longLiteral rest) else none
  | [] => none

/-- Drops the line end right after opening quotes. -/
def dropLineEnd : List Char → List Char
  | '\n' :: rest => rest
  | '\r' :: '\n' :: rest => rest
  | cs => cs

/-- **A text in front**, in any of the four spellings. -/
def text? : List Char → Read
  | '"' :: '"' :: '"' :: rest => longText .none (dropLineEnd rest)
  | '\'' :: '\'' :: '\'' :: rest => longLiteral (dropLineEnd rest)
  | '"' :: rest => basicText rest
  | '\'' :: rest => literalText rest
  | _ => none

/-- A text on one line in front. -/
def shortText? : List Char → Read
  | '"' :: rest => basicText rest
  | '\'' :: rest => literalText rest
  | _ => none

end FeatureFlags.Toml
