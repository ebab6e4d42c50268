import FeatureFlags.Toml.Scalar
import FeatureFlags.Toml.Strings

/-!
# Toml/Reader — reading a TOML document

A document is a row of statements, one a line: a header opens a table, a key gets a value.  Values
nest at most `deepest` levels.
-/

namespace FeatureFlags.Toml

/-! ## Blanks, comments and line ends -/

def dropBlanks (cs : List Char) : List Char := cs.dropWhile fun c => c = ' ' || c = '\t'

/-- Drops blanks, line ends and comments; inside a comment the flag is set. -/
def dropSpace : Bool → List Char → Option (List Char)
  | _, [] => some []
  | _, '\n' :: rest => dropSpace false rest
  | _, '\r' :: '\n' :: rest => dropSpace false rest
  | true, c :: rest => if isPrintable c then dropSpace true rest else none
  | false, c :: rest =>
    if c = ' ' ∨ c = '\t' then dropSpace false rest
    else if c = '#' then dropSpace true rest
    else some (c :: rest)

/-- Drops the rest of a line, which holds nothing but blanks and a comment. -/
def dropLine (cs : List Char) : Option (List Char) :=
  match dropBlanks cs with
  | [] => some []
  | '\n' :: rest => some rest
  | '\r' :: '\n' :: rest => some rest
  | '#' :: rest =>
    match rest.dropWhile isPrintable with
    | [] => some []
    | '\n' :: rest => some rest
    | '\r' :: '\n' :: rest => some rest
    | _ => none
  | _ => none

/-! ## Keys -/

def isBareKeyChar (c : Char) : Bool := c.isAlphanum || c = '_' || c = '-'

/-- One segment of a key. -/
def segment? (cs : List Char) : Option (String × List Char) :=
  match cs.takeWhile isBareKeyChar with
  | [] => (shortText? cs).map fun (s, rest) => (String.ofList s, rest)
  | bare => some (String.ofList bare, cs.dropWhile isBareKeyChar)

/-- A key: segments with points between them, blanks around any.  Each takes a character at least,
so the fuel of their number is enough. -/
def keyWith : Nat → List Char → Option (List String × List Char)
  | 0, _ => none
  | fuel + 1, cs => do
    let (first, rest) ← segment? (dropBlanks cs)
    match dropBlanks rest with
    | '.' :: rest => do
      let (path, rest) ← keyWith fuel rest
      some (first :: path, rest)
    | rest => some ([first], rest)

/-- **A key in front.** -/
def key? (cs : List Char) : Option (List String × List Char) := keyWith cs.length cs

/-! ## Values -/

/-- How deep values nest. -/
def deepest : Nat := 80

def isScalarChar (c : Char) : Bool :=
  c.isAlphanum || c = '_' || c = '+' || c = '-' || c = '.' || c = ':'

/-- A scalar in front; a date and a time may be parted by one blank. -/
def scalarText (cs : List Char) : List Char × List Char :=
  let first := cs.takeWhile isScalarChar
  match dropDate? first, cs.dropWhile isScalarChar with
  | some [], ' ' :: c :: rest =>
    if c.isDigit then
      (first ++ ' ' :: (c :: rest).takeWhile isScalarChar, (c :: rest).dropWhile isScalarChar)
    else (first, ' ' :: c :: rest)
  | _, rest => (first, rest)

/-- The items of an array behind its opening bracket. -/
def arrayItems (item : List Char → Option (Value × List Char)) :
    Nat → List Char → Option (List Value × List Char)
  | 0, _ => none
  | fuel + 1, cs => do
    match ← dropSpace false cs with
    | ']' :: rest => some ([], rest)
    | cs => do
      let (v, rest) ← item cs
      match ← dropSpace false rest with
      | ',' :: rest => do
        let (vs, rest) ← arrayItems item fuel rest
        some (v :: vs, rest)
      | ']' :: rest => some ([v], rest)
      | _ => none

/-- The pairs of a table that is written out, from a key on. -/
def tablePairs (item : List Char → Option (Value × List Char)) :
    Nat → List Char → Option (List (List String × Value) × List Char)
  | 0, _ => none
  | fuel + 1, cs => do
    let (path, rest) ← key? cs
    match rest with
    | '=' :: rest => do
      let (v, rest) ← item (dropBlanks rest)
      match dropBlanks rest with
      | ',' :: rest => do
        let (pairs, rest) ← tablePairs item fuel rest
        some ((path, v) :: pairs, rest)
      | '\x7d' :: rest => some ([(path, v)], rest)
      | _ => none
    | _ => none

/-- **A value in front.** -/
def value : Nat → List Char → Option (Value × List Char)
  | depth + 1, '[' :: cs => do
    if depth = 0 then none
    else
      let (vs, rest) ← arrayItems (value depth) (cs.length + 1) cs
      some (.array vs, rest)
  | depth + 1, '\x7b' :: cs => do
    if depth = 0 then none
    else match dropBlanks cs with
      | '\x7d' :: rest => some (.table .written [], rest)
      | cs => do
        let (pairs, rest) ← tablePairs (value depth) (cs.length + 1) cs
        some (← Table.ofPairs? pairs, rest)
  | _, cs =>
    match cs.head? with
    | some '"' | some '\'' => (text? cs).map fun (s, rest) => (.text (String.ofList s), rest)
    | _ =>
      let (scalar, rest) := scalarText cs
      (scalar? scalar).map (·, rest)

/-! ## Statements -/

/-- The closing brackets of a header, and the rest of the line. -/
def closeHeader (isItem : Bool) (rest : List Char) : Option (List Char) :=
  match isItem, rest with
  | true, ']' :: ']' :: rest => dropLine rest
  | false, ']' :: rest => dropLine rest
  | _, _ => none

/-- **A statement in front**, and what is left behind its line. -/
def statement? : List Char → Option (Statement × List Char)
  | '[' :: '[' :: cs => do
    let (path, rest) ← key? cs
    some (.opensItem path, ← closeHeader true rest)
  | '[' :: cs => do
    let (path, rest) ← key? cs
    some (.opens path, ← closeHeader false rest)
  | cs => do
    let (path, rest) ← key? cs
    match rest with
    | '=' :: rest => do
      let (v, rest) ← value deepest (dropBlanks rest)
      some (.assigns path v, ← dropLine rest)
    | _ => none

/-- Statements to the end; each takes a character at least. -/
def statementsWith : Nat → List Char → Option (List Statement)
  | 0, _ => none
  | fuel + 1, cs => do
    match ← dropSpace false cs with
    | [] => some []
    | cs => do
      let (s, rest) ← statement? cs
      some (s :: (← statementsWith fuel rest))

/-- **Reads a document**: the entries of its outermost table. -/
def read? (text : String) : Option Entries :=
  let cs := match text.toList with
    | '\uFEFF' :: cs => cs
    | cs => cs
  (statementsWith (cs.length + 1) cs).bind Document.ofStatements?

end FeatureFlags.Toml
