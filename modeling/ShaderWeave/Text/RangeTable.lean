/-!
# Tables of code point ranges

A Unicode property is given as a list of closed ranges of code points. The
property modules of this library (`Text.Space`, `Text.DecimalDigit`,
`Text.Combining`, `Text.Printable`) are tables of this form.

## Main definitions

- `Text.RangeTable`: a list of closed ranges.
- `Text.RangeTable.contains`: does a character lie in one of the ranges?
-/

namespace ShaderWeave.Text

/-- Closed ranges of code points, in ascending order. -/
abbrev RangeTable := List (Nat × Nat)

namespace RangeTable

/-- Does the code point of `c` lie in one of the ranges? -/
def contains (table : RangeTable) (c : Char) : Bool :=
  table.any fun range => range.1 ≤ c.toNat && c.toNat ≤ range.2

/-- A character is in the table iff some range holds its code point. -/
theorem contains_iff (table : RangeTable) (c : Char) :
    table.contains c = true ↔ ∃ range ∈ table, range.1 ≤ c.toNat ∧ c.toNat ≤ range.2 := by
  simp [contains]

end RangeTable

end ShaderWeave.Text
