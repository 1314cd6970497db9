/-!
# Numerals and columns

Numbers in decimal digits, and texts filled up with spaces to a fixed width.

## Main definitions

- `Text.numeral`: a number in decimal digits.
- `Text.padLeft`, `Text.padRight`: fill up with spaces.
-/

namespace ShaderWeave.Text

/-- The number in decimal digits, without leading zeros. -/
def numeral (n : Nat) : String :=
  String.ofList (Nat.toDigits 10 n)

/-- Fill up with spaces on the right until there are `width` characters. -/
def padRight (width : Nat) (text : List Char) : List Char :=
  text ++ List.replicate (width - text.length) ' '

/-- Fill up with spaces on the left until there are `width` characters. -/
def padLeft (width : Nat) (text : List Char) : List Char :=
  List.replicate (width - text.length) ' ' ++ text

end ShaderWeave.Text
