import ShaderWeave.Text.Combining
import ShaderWeave.Text.Printable

/-!
# Quoted text

Keys and paths stand in messages in double quotes, on one line and readable
whatever characters they hold.

## Main definitions

- `Text.escape`: how one character is written between the quotes.
- `Text.quoted`: the text in quotes.
-/

namespace ShaderWeave.Text

/-- The code point of `c` in lower-case hexadecimal digits, in braces. -/
def codePoint (c : Char) : List Char :=
  ['\\', 'u', '\x7b'] ++ Nat.toDigits 16 c.toNat ++ ['\x7d']

/-- How `c` is written between quotes: the quote and the backslash after a
backslash, four controls by their letters, and every other combining or
unprintable character by its code point. A single quote stays as it is. -/
def escape (c : Char) : List Char :=
  match c with
  | '\x00' => ['\\', '0']
  | '\t' => ['\\', 't']
  | '\r' => ['\\', 'r']
  | '\n' => ['\\', 'n']
  | '"' => ['\\', '"']
  | '\\' => ['\\', '\\']
  | _ => if isCombining c || !isPrintable c then codePoint c else [c]

def quoted (text : String) : String :=
  String.ofList ('"' :: text.toList.flatMap escape ++ ['"'])

end ShaderWeave.Text
