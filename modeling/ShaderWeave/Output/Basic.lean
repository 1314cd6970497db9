import ShaderWeave.Location

/-!
# Output with origins

The flattened text of a pass, together with the location each of its lines came
from. Several source units write to one output in turn, and a line may be begun
by one unit and ended by another. The first unit to end a line, or to stop in
the middle of it, owns the line.

## Main definitions

- `Output`: the text, the origins of its lines, and the number of ended lines.
- `Output.push`, `Output.pushText`: write within a line.
- `Output.endLine`, `Output.flush`: end a line, or stop in the middle of it.
- `Output.isMidLine`, `Output.lineWidth`: what stands on the last line.

## Design notes

`closed` counts the calls of `endLine` and is kept apart from the text, because
a caller may replace the text or the origins between two passes; the count
alone then decides whether the current line already has its origin.
-/

namespace ShaderWeave

/-- Flattened text with the origins of its lines. -/
structure Output where
  text : String := ""
  /-- The origin of each line, first line first. -/
  origins : Array Location := #[]
  /-- How many lines have been ended. -/
  closed : Nat := 0
deriving DecidableEq

namespace Output

/-- The origin of the line with the given index, counted from zero. -/
def origin? (o : Output) (index : Nat) : Option Location :=
  o.origins[index]?

/-! ## What stands on the last line -/

/-- Has the last line been begun and not yet ended? -/
def isMidLine (o : Output) : Bool :=
  o.text.back?.any (· != '\n')

/-- How many characters stand after the last line feed. -/
def lineWidth (o : Output) : Nat :=
  (o.text.toList.reverse.takeWhile (· != '\n')).length

/-! ## Writing -/

/-- Write a character other than the line feed. -/
def push (o : Output) (c : Char) : Output :=
  { o with text := o.text.push c }

def pushText (o : Output) (text : String) : Output :=
  { o with text := o.text ++ text }

/-- Add an origin, whichever line it is for. -/
def addOrigin (o : Output) (l : Location) : Output :=
  { o with origins := o.origins.push l }

/-- Make `l` the origin of the current line, unless the line already has one. -/
def own (o : Output) (l : Location) : Output :=
  if o.origins.size = o.closed then o.addOrigin l else o

/-- End the current line, whose origin is `l` unless it already has one. -/
def endLine (o : Output) (l : Location) : Output :=
  let o := o.own l
  { o with text := o.text.push '\n', closed := o.closed + 1 }

/-- Stop writing: a line that is begun gets its origin now. -/
def flush (o : Output) (l : Location) : Output :=
  if o.isMidLine then o.own l else o

/-! ## The text after each operation -/

@[simp]
theorem text_push (o : Output) (c : Char) : (o.push c).text = o.text.push c := rfl

@[simp]
theorem text_pushText (o : Output) (text : String) : (o.pushText text).text = o.text ++ text := rfl

@[simp]
theorem text_own (o : Output) (l : Location) : (o.own l).text = o.text := by
  unfold own
  split <;> rfl

@[simp]
theorem text_endLine (o : Output) (l : Location) : (o.endLine l).text = o.text.push '\n' := by
  simp [endLine]

@[simp]
theorem text_flush (o : Output) (l : Location) : (o.flush l).text = o.text := by
  unfold flush
  split <;> simp

@[simp]
theorem closed_endLine (o : Output) (l : Location) : (o.endLine l).closed = o.closed + 1 := by
  unfold endLine own
  split <;> rfl

/-! ## The last line after each operation -/

@[simp]
theorem isMidLine_push (o : Output) {c : Char} (h : c ≠ '\n') : (o.push c).isMidLine = true := by
  simp [isMidLine, String.back?_eq, h]

@[simp]
theorem isMidLine_endLine (o : Output) (l : Location) : (o.endLine l).isMidLine = false := by
  simp [isMidLine, String.back?_eq]

@[simp]
theorem lineWidth_push (o : Output) {c : Char} (h : c ≠ '\n') :
    (o.push c).lineWidth = o.lineWidth + 1 := by
  simp [lineWidth, h]

@[simp]
theorem lineWidth_endLine (o : Output) (l : Location) : (o.endLine l).lineWidth = 0 := by
  simp [lineWidth]

end Output

end ShaderWeave
