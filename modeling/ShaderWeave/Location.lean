import ShaderWeave.Text.Column

/-!
# Locations

A line of a source unit, named by the unit's key and a line number counted
from one. Output lines remember the location they came from, and faults the
location of the directive they arose at.

## Main definitions

- `Location`: a key and a line number.
- `Location.reference`: the location as a compiler log shows it.
- `Location.fileName`: the last part of the key.
-/

namespace ShaderWeave

/-- A line of a source unit. Line numbers count from one. -/
structure Location where
  key : String
  line : Nat
deriving DecidableEq

namespace Location

/-- The location as `key(line)`. -/
def reference (l : Location) : String :=
  l.key ++ "(" ++ Text.numeral l.line ++ ")"

/-- The part of the key after its last slash. -/
def fileName (l : Location) : String :=
  String.ofList (l.key.toList.reverse.takeWhile (· != '/')).reverse

end Location

end ShaderWeave
