import ShaderWeave.Scan.Directive
import ShaderWeave.Weave.Pass

/-!
# Expanding directives

What is put in the place of a directive line. Both kinds of directive hand
nested units to an action `descend`, which weaves a unit into the output on
behalf of the directive at a location.

## Main definitions

- `Weaver`: what stays the same during a pass.
- `Weaver.expandInclusion`: ask for the path and weave the text behind it.
- `Weaver.expandPlaceholder`: weave all segments of a placeholder.
-/

namespace ShaderWeave

/-- How many levels of nested units are allowed unless a caller says otherwise. -/
def defaultLimit : Nat := 32

/-- What stays the same during a pass. -/
structure Weaver (σ : Type) where
  supplier : Supplier σ
  plan : Plan := .empty
  /-- How many levels of units may be nested in the entry unit. -/
  limit : Nat := defaultLimit

namespace Weaver

variable {σ : Type}

/-- Put the text behind a path in the place of the inclusion at `site`. Tells
whether there was text to put there: a repeated inclusion is dropped. -/
def expandInclusion (w : Weaver σ) (descend : Location → SourceUnit → WeaveM σ Unit)
    (site : Location) : Option String → WeaveM σ Bool
  | none => throw (.malformedInclusion site)
  | some path => do
    match ← WeaveM.request w.supplier path with
    | .failed cause => throw (.unresolved path site cause)
    | .repeated =>
      WeaveM.report (.skipped site path)
      return false
    | .fresh unit =>
      WeaveM.report (.expanding site path unit.key)
      descend site unit
      return true

/-- Make room for the next segment: end the line if one is begun, and move to
the given column. -/
def separate (site : Location) (column : Nat) : WeaveM σ Unit :=
  WeaveM.onOutput fun o =>
    let o := if o.isMidLine then o.endLine site else o
    o.pushText (String.ofList (List.replicate column ' '))

/-- Weave segments one below the other, all at the given column. The first
begins where the output stands. -/
def inject (descend : Location → SourceUnit → WeaveM σ Unit) (site : Location) (column : Nat) :
    List Segment → WeaveM σ Unit
  | [] => pure ()
  | first :: others => do
    descend site (first.unit column)
    others.forM fun s => do
      separate site column
      descend site (s.unit column)

/-- Put all segments of a placeholder in the place of its line. -/
def expandPlaceholder (w : Weaver σ) (descend : Location → SourceUnit → WeaveM σ Unit)
    (site : Location) (column : Nat) (name : String) : WeaveM σ Unit := do
  let segments := w.plan.segmentsFor name
  inject descend site column segments
  WeaveM.report (.injected site name segments.length)

end Weaver

end ShaderWeave
