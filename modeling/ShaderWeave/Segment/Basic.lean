import ShaderWeave.SourceUnit
import ShaderWeave.Text.Column
import ShaderWeave.Text.Line

/-!
# Segments

A segment is a named snippet of code for a placeholder: a line of a source unit
that stands for all segments registered under the line's content.

## Main definitions

- `Placeholder`, `Segment`: where a snippet goes, and the snippet.
- `Segment.key`: the key that the snippet's lines are reported under.
- `Segment.unit`: the snippet as a source unit, shifted to a column.
- `Placeholder.Before`, `Segment.Before`: the order in which segments are emitted.
-/

namespace ShaderWeave

/-- An injection point. -/
structure Placeholder where
  /-- Content of the lines that the placeholder's segments replace. -/
  name : String
  /-- Placeholders of one name are expanded together, scope by scope. -/
  scope : String := ""
deriving DecidableEq

/-- The order of placeholders: by name, then by scope. Both compare by code point. -/
def Placeholder.Before (p q : Placeholder) : Prop :=
  p.name < q.name ∨ p.name = q.name ∧ p.scope < q.scope

instance : DecidableRel Placeholder.Before := fun p q => by
  unfold Placeholder.Before
  infer_instance

def Segment.defaultPriority : Nat := 1000

/-- A named snippet for a placeholder. -/
structure Segment where
  placeholder : Placeholder
  /-- Name of the segment. Several segments may have one name. -/
  name : String
  snippet : String
  /-- Within a scope, segments of lower priority come first. -/
  priority : Nat := Segment.defaultPriority
deriving DecidableEq

namespace Segment

/-- The key of the snippet's lines, as in `tint[#pragma SETUP,1000]`. -/
def key (s : Segment) : String :=
  s.name ++ "[" ++ s.placeholder.name ++ "," ++ Text.numeral s.priority ++ "]"

/-- The snippet as a source unit whose later lines start at the given column. -/
def unit (s : Segment) (column : Nat) : SourceUnit where
  key := s.key
  text := String.ofList (Text.indent (List.replicate column ' ') s.snippet.toList)

/-- The emission order: by placeholder, then by priority. -/
def Before (s t : Segment) : Prop :=
  s.placeholder.Before t.placeholder ∨ s.placeholder = t.placeholder ∧ s.priority < t.priority

instance : DecidableRel Before := fun s t => by
  unfold Before
  infer_instance

end Segment

end ShaderWeave
