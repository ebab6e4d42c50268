import FeatureFlags.Text.Hex
import FeatureFlags.Text.Unprintable

/-!
# Text/Quoted — texts as messages quote them

A quoted text stands between double quotes.  The quote, the backslash, the tab, the two line ends
and the null character have two-character escapes; any other unprintable character is written by its
code point in hexadecimal between braces.
-/

namespace FeatureFlags.Quoted

/-- A character inside a quoted text. -/
def escape (c : Char) : List Char :=
  match c with
  | '\x00' => ['\\', '0']
  | '\t' => ['\\', 't']
  | '\r' => ['\\', 'r']
  | '\n' => ['\\', 'n']
  | '"' => ['\\', '"']
  | '\\' => ['\\', '\\']
  | c =>
    if Unprintable.contains c then
      ['\\', 'u', '\x7b'] ++ Hex.digits c.toNat ++ ['\x7d']
    else [c]

/-- **The text between quotes.** -/
def quote (s : String) : String := String.ofList ('"' :: (s.toList.flatMap escape ++ ['"']))

end FeatureFlags.Quoted
