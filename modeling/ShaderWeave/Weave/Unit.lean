import ShaderWeave.Scan.Mode
import ShaderWeave.Weave.Expand

/-!
# Weaving one unit

A unit is read from start to end. Its text is copied to the output, except for
directive lines, which are expanded where they stand.

## Main definitions

- `Cursor`: how far the scan of a unit has come.
- `Weaver.copy`: copy a character.
- `Weaver.leaveDirective`: pass the end of a directive line.
- `Weaver.step`, `Weaver.walk`: read one character, and all of them.
- `Weaver.finish`: reach the end of the unit.
- `Weaver.scan`: read a whole unit.

## Design notes

The line counter moves on when a directive is expanded, not when its line ends.
So on a directive line the counter is the number of that line, and elsewhere it
is one less.
-/

namespace ShaderWeave

/-- How far the scan of a unit has come. -/
structure Cursor where
  mode : Mode := .lineStart
  /-- How many lines of the unit are dealt with. -/
  line : Nat := 0
  /-- How many characters stand on the last line of the output. -/
  column : Nat
deriving DecidableEq

namespace Weaver

variable {σ : Type}

/-- Copy a character of the unit of the given key to the output. -/
def copy (key : String) (cur : Cursor) (c : Char) : WeaveM σ Cursor :=
  if c = '\n' then do
    WeaveM.onOutput (·.endLine ⟨key, cur.line + 1⟩)
    return { mode := cur.mode.next c, line := cur.line + 1, column := 0 }
  else do
    WeaveM.onOutput (·.push c)
    return { cur with mode := cur.mode.next c, column := cur.column + 1 }

/-- Pass the end of a directive line. The line end is written only if the
expansion has left a line begun, or if nothing was put in the line's place. -/
def leaveDirective (key : String) (replaced : Bool) (cur : Cursor) : WeaveM σ Cursor := do
  WeaveM.onOutput fun o => if o.isMidLine || !replaced then o.endLine ⟨key, cur.line⟩ else o
  return { cur with mode := .lineStart, column := 0 }

/-- Expand a directive that begins here. -/
def expand (w : Weaver σ) (descend : Location → SourceUnit → WeaveM σ Unit) (key : String)
    (cur : Cursor) (d : Directive) : WeaveM σ Cursor := do
  let site : Location := ⟨key, cur.line + 1⟩
  let replaced ← match d with
    | .inclusion path => w.expandInclusion descend site path
    | .placeholder name => do
      w.expandPlaceholder descend site cur.column name
      pure true
  return { cur with mode := .directive replaced, line := cur.line + 1 }

/-- Read the character `c`, which `rest` follows. -/
def step (w : Weaver σ) (descend : Location → SourceUnit → WeaveM σ Unit) (key : String)
    (cur : Cursor) (c : Char) (rest : List Char) : WeaveM σ Cursor :=
  match cur.mode with
  | .directive replaced => if c = '\n' then leaveDirective key replaced cur else pure cur
  | .lineStart =>
    match Directive.read? w.plan (c :: rest) with
    | some d => w.expand descend key cur d
    | none => copy key cur c
  | _ => copy key cur c

def walk (w : Weaver σ) (descend : Location → SourceUnit → WeaveM σ Unit) (key : String) :
    Cursor → List Char → WeaveM σ Cursor
  | cur, [] => pure cur
  | cur, c :: rest => do
    let cur ← w.step descend key cur c rest
    w.walk descend key cur rest

/-- Reach the end of the unit: a line that is begun gets its origin. A block
comment must have ended. -/
def finish (key : String) (cur : Cursor) : WeaveM σ Unit :=
  match cur.mode with
  | .blockComment point => throw (.unterminated key point)
  | .directive _ => WeaveM.onOutput (·.flush ⟨key, cur.line⟩)
  | _ => WeaveM.onOutput (·.flush ⟨key, cur.line + 1⟩)

/-- Read a whole unit, beginning where the output stands. -/
def scan (w : Weaver σ) (descend : Location → SourceUnit → WeaveM σ Unit) (unit : SourceUnit) :
    WeaveM σ Unit := do
  let column := (← get).output.lineWidth
  let cur ← w.walk descend unit.key { column := column } unit.text.toList
  finish unit.key cur

end Weaver

end ShaderWeave
