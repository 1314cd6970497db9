import ShaderWeave.Text.RangeTable

/-!
# White space

The characters with the Unicode property White_Space. The separators U+001C to
U+001F and the zero-width characters U+180E, U+200B and U+FEFF do not have it.

## Main definitions

- `Text.isSpace`: the property.
- `Text.trimEnd`: a text without the white space at its end.
-/

namespace ShaderWeave.Text

/-- The ranges of White_Space. -/
def spaceRanges : RangeTable :=
  [(0x0009, 0x000D), (0x0020, 0x0020), (0x0085, 0x0085), (0x00A0, 0x00A0), (0x1680, 0x1680),
   (0x2000, 0x200A), (0x2028, 0x2029), (0x202F, 0x202F), (0x205F, 0x205F), (0x3000, 0x3000)]

/-- Is `c` white space? The line feed is. -/
def isSpace (c : Char) : Bool :=
  spaceRanges.contains c

/-- The text without the white space at its end. -/
def trimEnd (text : List Char) : List Char :=
  (text.reverse.dropWhile isSpace).reverse

end ShaderWeave.Text
