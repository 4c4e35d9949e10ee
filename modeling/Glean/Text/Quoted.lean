import Glean.Text.Visible

/-!
# Quoted text

Writes a text between double quotes. The quote, the backslash and four control characters have
short escapes; every other character that is not visible is written by its number in hexadecimal
between braces.
-/

namespace Glean.Text

/-- The characters that stand for `c` between double quotes. -/
def escape (c : Char) : List Char :=
  match c with
  | '"' => ['\\', '"']
  | '\\' => ['\\', '\\']
  | '\n' => ['\\', 'n']
  | '\r' => ['\\', 'r']
  | '\t' => ['\\', 't']
  | '\x00' => ['\\', '0']
  | c =>
    if isVisible c then [c]
    else '\\' :: 'u' :: '\x7b' :: (Nat.toDigits 16 c.toNat ++ ['\x7d'])

/-- A text between double quotes. -/
def quoted (text : String) : String :=
  String.ofList ('"' :: (text.toList.flatMap escape ++ ['"']))

end Glean.Text
