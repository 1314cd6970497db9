import ShaderWeave.Weave.Unit

/-!
# Weaving a unit and all it stands for

Directives may stand for units that hold directives again. Every unit is woven
with the room that is left for further levels below it.

## Main definitions

- `Weaver.unitAt`: weave a unit with room for a number of levels below it.
- `Weaver.append`: weave a unit onto the output of a pass.
- `Weaver.weave`: weave an entry unit in a pass of its own.
- `Weaver.weaveFile`: weave the unit behind a path in a pass of its own.

## Design notes

The nesting limit is the only bound on cyclic directives, so the recursion is on
the room that is left. With no room left a directive that stands for a unit is
a fault, and that is noticed after the supplier has been asked.
-/

namespace ShaderWeave

/-- How a pass ends: with an output or with a fault, and in which state. -/
abbrev Outcome (σ : Type) := EStateM.Result Fault (Pass σ) Output

namespace Weaver

variable {σ : Type}

/-- Weave a unit that has room for the given number of levels below it. A fault
in a nested unit is wrapped with the directive that stands for the unit. -/
def unitAt (w : Weaver σ) : Nat → SourceUnit → WeaveM σ Unit
  | 0 => w.scan fun site _ => throw (.tooDeep site w.limit)
  | room + 1 => w.scan fun site inner => (w.unitAt room inner).adaptExcept (Fault.nested site)

def append (w : Weaver σ) (unit : SourceUnit) : WeaveM σ Unit :=
  w.unitAt w.limit unit

/-- Weave the entry unit of a pass, and tell that the pass has succeeded. -/
def entry (w : Weaver σ) (unit : SourceUnit) : WeaveM σ Output := do
  w.append unit
  let output := (← get).output
  WeaveM.report (.finished unit.key output.origins.size)
  return output

/-- Ask for the entry unit of a pass and weave it. An entry that was handed out
before leaves the output empty. -/
def entryFile (w : Weaver σ) (path : String) : WeaveM σ Output := do
  match ← WeaveM.request w.supplier path with
  | .failed cause => throw (.unresolved path ⟨"", 0⟩ cause)
  | .repeated => return {}
  | .fresh unit => w.entry unit

/-- Weave an entry unit in a pass of its own. -/
def weave (w : Weaver σ) (unit : SourceUnit) (stock : σ) : Outcome σ :=
  (w.entry unit).run { stock := stock }

/-- Weave the unit behind a path in a pass of its own. -/
def weaveFile (w : Weaver σ) (path : String) (stock : σ) : Outcome σ :=
  (w.entryFile path).run { stock := stock }

end Weaver

end ShaderWeave
