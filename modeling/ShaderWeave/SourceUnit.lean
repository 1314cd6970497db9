/-!
# Source units

The texts that a pass reads: the entry text, what a supplier hands out for an
inclusion, and the snippets of segments.

## Main definitions

- `SourceUnit`: a text and the key its lines are reported under.
-/

namespace ShaderWeave

/-- A text, and the key under which its lines are reported. -/
structure SourceUnit where
  /-- Name of the unit in origins, messages and events. -/
  key : String
  text : String
deriving DecidableEq

end ShaderWeave
