import FeatureFlags.Json.Basic
import FeatureFlags.Text.Hex
import FeatureFlags.Text.Numeral

/-!
# Json/Token — the tokens of JSON text

Text is read by a machine that takes one character at a time, so reading is a plain fold
(`Lexer.Machine.run`) and reading two texts one after the other is reading their concatenation
(`Lexer.run_append`).  `Token.text` writes a token.

Blanks are the space, the tab and the two line ends.  A string holds no raw control character; an
escaped surrogate stands in a pair only.  A number without point and exponent that fits 64 bits is
an integer; any other is the double nearest to it, and is refused when that is infinite.
-/

namespace FeatureFlags

/-- **A token of JSON text.** -/
inductive Token
  | openBrace
  | closeBrace
  | openBracket
  | closeBracket
  | colon
  | comma
  | null
  | bool (value : Bool)
  | num (value : Number)
  | str (value : String)
  deriving DecidableEq, Inhabited, Repr

/-! ## Numerals -/

namespace Number

/-- A number written without point and exponent. -/
def ofNumeral? (negative : Bool) (n : Nat) : Option Number :=
  if negative then
    if n = 0 then some (double (Binary64.ofSignMagnitude true 0))
    else if isInt64 (-n) then some (int (-n))
    else ofDouble? (Binary64.ofDecimal true n 0)
  else if isUInt64 n then some (int n)
  else ofDouble? (Binary64.ofDecimal false n 0)

/-- The exponent part, if there is one: the letter, then a whole number. -/
def exponent? : List Char → Option (Option Int)
  | [] => some none
  | e :: rest => if e = 'e' ∨ e = 'E' then (Numeral.integer? rest).map some else none

/-- **The number a lexeme writes**: a minus sign at most, digits without a leading zero, then
optionally a point with digits and an exponent. -/
def ofLexeme? (cs : List Char) : Option Number :=
  let (negative, cs) := match cs with
    | '-' :: rest => (true, rest)
    | cs => (false, cs)
  let (whole, rest) := Numeral.span cs
  if whole.isEmpty || (whole.head? == some '0' && 1 < whole.length) then none
  else
    let places := match rest with
      | '.' :: rest =>
        let (decimals, rest) := Numeral.span rest
        if decimals.isEmpty then none else some (some decimals, rest)
      | rest => some (none, rest)
    match places with
    | none => none
    | some (decimals, rest) =>
      match exponent? rest, decimals with
      | none, _ => none
      | some none, none => ofNumeral? negative (Numeral.value whole)
      | some power, decimals =>
        let decimals := decimals.getD []
        ofDouble? (Binary64.ofDecimal negative (Numeral.value (whole ++ decimals))
          (power.getD 0 - decimals.length))

end Number

/-! ## The machine -/

namespace Lexer

/-- **What the machine is in the middle of.**  Characters already taken are kept in reverse. -/
inductive State
  | between
  | word (taken : List Char)
  | numeral (taken : List Char)
  | string (taken : List Char)
  | escape (taken : List Char)
  /-- Inside a four-digit escape: the high surrogate before it, if any, and the digits so far. -/
  | unit (taken : List Char) (high : Option Nat) (count value : Nat)
  /-- After a high surrogate, which needs a low one. -/
  | pairSlash (taken : List Char) (high : Nat)
  | pairLetter (taken : List Char) (high : Nat)
  deriving DecidableEq, Inhabited, Repr

def isBlank (c : Char) : Bool := c = ' ' || c = '\t' || c = '\n' || c = '\r'

def isNumeralStart (c : Char) : Bool := c.isDigit || c = '-'

def isNumeralPart (c : Char) : Bool :=
  c.isDigit || c = '-' || c = '+' || c = '.' || c = 'e' || c = 'E'

/-- The token of a word. -/
def wordToken? : List Char → Option Token
  | ['n', 'u', 'l', 'l'] => some .null
  | ['t', 'r', 'u', 'e'] => some (.bool true)
  | ['f', 'a', 'l', 's', 'e'] => some (.bool false)
  | _ => none

/-- A step outside every token. -/
def stepBetween (c : Char) : Option (State × List Token) :=
  if isBlank c then some (.between, [])
  else if c = '\x7b' then some (.between, [.openBrace])
  else if c = '\x7d' then some (.between, [.closeBrace])
  else if c = '[' then some (.between, [.openBracket])
  else if c = ']' then some (.between, [.closeBracket])
  else if c = ':' then some (.between, [.colon])
  else if c = ',' then some (.between, [.comma])
  else if c = '"' then some (.string [], [])
  else if isNumeralStart c then some (.numeral [c], [])
  else if c.isLower then some (.word [c], [])
  else none

/-- The character of a short escape. -/
def shortEscape? (c : Char) : Option Char :=
  match c with
  | '"' => some '"'
  | '\\' => some '\\'
  | '/' => some '/'
  | 'b' => some '\x08'
  | 'f' => some '\x0c'
  | 'n' => some '\n'
  | 'r' => some '\r'
  | 't' => some '\t'
  | _ => none

/-- What a finished four-digit escape stands for. -/
def closeUnit (taken : List Char) (high : Option Nat) (value : Nat) : Option State :=
  match high with
  | none =>
    if 0xD800 ≤ value ∧ value < 0xDC00 then some (.pairSlash taken value)
    else if 0xDC00 ≤ value ∧ value < 0xE000 then none
    else some (.string (Char.ofNat value :: taken))
  | some high =>
    if 0xDC00 ≤ value ∧ value < 0xE000 then
      some (.string (Char.ofNat (0x10000 + (high - 0xD800) * 0x400 + (value - 0xDC00)) :: taken))
    else none

/-- **One character.**  The tokens it completes come with the next state. -/
def step : State → Char → Option (State × List Token)
  | .between, c => stepBetween c
  | .word taken, c =>
    if c.isLower then some (.word (c :: taken), [])
    else
      match wordToken? taken.reverse, stepBetween c with
      | some t, some (state, ts) => some (state, t :: ts)
      | _, _ => none
  | .numeral taken, c =>
    if isNumeralPart c then some (.numeral (c :: taken), [])
    else
      match Number.ofLexeme? taken.reverse, stepBetween c with
      | some n, some (state, ts) => some (state, .num n :: ts)
      | _, _ => none
  | .string taken, c =>
    if c = '"' then some (.between, [.str (String.ofList taken.reverse)])
    else if c = '\\' then some (.escape taken, [])
    else if c.toNat < 0x20 then none
    else some (.string (c :: taken), [])
  | .escape taken, c =>
    if c = 'u' then some (.unit taken none 0 0, [])
    else (shortEscape? c).map fun d => (.string (d :: taken), [])
  | .unit taken high count value, c =>
    match Hex.value? c with
    | none => none
    | some d =>
      if count < 3 then some (.unit taken high (count + 1) (16 * value + d), [])
      else (closeUnit taken high (16 * value + d)).map (·, [])
  | .pairSlash taken high, c => if c = '\\' then some (.pairLetter taken high, []) else none
  | .pairLetter taken high, c => if c = 'u' then some (.unit taken (some high) 0 0, []) else none

/-- What the end of the text completes. -/
def finish : State → Option (List Token)
  | .between => some []
  | .word taken => (wordToken? taken.reverse).map ([·])
  | .numeral taken => (Number.ofLexeme? taken.reverse).map ([.num ·])
  | _ => none

/-- **The machine**: its state, and the tokens it has completed, the last one first. -/
structure Machine where
  state : State
  completed : List Token
  deriving DecidableEq, Inhabited, Repr

def Machine.take (m : Machine) (c : Char) : Option Machine :=
  (step m.state c).map fun (next, tokens) => ⟨next, tokens.reverse ++ m.completed⟩

/-- **Reads a text.** -/
def Machine.run (m : Machine) (cs : List Char) : Option Machine := cs.foldlM Machine.take m

/-- Before the first character. -/
def start : Machine := ⟨.between, []⟩

/-- Reading a concatenation is reading its parts in turn. -/
theorem run_append (m : Machine) (cs ds : List Char) :
    m.run (cs ++ ds) = (m.run cs).bind (·.run ds) :=
  List.foldlM_append

end Lexer

namespace Token

/-- **The tokens of a text.** -/
def ofText? (cs : List Char) : Option (List Token) :=
  (Lexer.start.run cs).bind fun m => (Lexer.finish m.state).map (m.completed.reverse ++ ·)

/-! ## Writing -/

/-- A character inside a written string: only the quote, the backslash and the control characters
are escaped. -/
def escapeChar (c : Char) : List Char :=
  match c with
  | '"' => ['\\', '"']
  | '\\' => ['\\', '\\']
  | '\x08' => ['\\', 'b']
  | '\t' => ['\\', 't']
  | '\n' => ['\\', 'n']
  | '\x0c' => ['\\', 'f']
  | '\r' => ['\\', 'r']
  | c => if c.toNat < 0x20 then '\\' :: 'u' :: Hex.padded 4 c.toNat else [c]

/-- A string between quotes. -/
def quote (s : String) : List Char := '"' :: (s.toList.flatMap escapeChar ++ ['"'])

/-- **The text of a token.** -/
def text : Token → List Char
  | openBrace => ['\x7b']
  | closeBrace => ['\x7d']
  | openBracket => ['[']
  | closeBracket => [']']
  | colon => [':']
  | comma => [',']
  | null => ['n', 'u', 'l', 'l']
  | bool true => ['t', 'r', 'u', 'e']
  | bool false => ['f', 'a', 'l', 's', 'e']
  | num n => n.text
  | str s => quote s

end Token

end FeatureFlags
