import ShaderWeave.Location
import ShaderWeave.Scan.Mode
import ShaderWeave.Supply.Basic

/-!
# Faults

Why a pass stopped. A fault in a nested unit is wrapped once for every
directive on the way to it, so the whole way can be told.

## Main definitions

- `Fault`: the fault with its place.
- `Fault.message`: the fault in words.
- `Fault.innermost`: the fault below all wrappers.
- `Fault.trail`: the directives on the way to it.
-/

namespace ShaderWeave

/-- The name of a point in a comment, as messages show it. -/
def CommentPoint.label : CommentPoint → String
  | inside => "BlockComment1"
  | afterStar => "BlockComment2"

/-- Why a pass stopped. -/
inductive Fault where
  | malformedInclusion (site : Location)
  /-- The supplier has no text for the path that is wanted at `site`. -/
  | unresolved (path : String) (site : Location) (cause : Cause)
  | unterminated (key : String) (point : CommentPoint)
  /-- The directive at `site` would nest units deeper than `limit` levels. -/
  | tooDeep (site : Location) (limit : Nat)
  /-- A fault in a unit that the directive at `site` stands for. -/
  | nested (site : Location) (inner : Fault)
deriving DecidableEq

namespace Fault

/-- A location as `"key" (line)`. -/
def place (site : Location) : String :=
  Text.quoted site.key ++ " (" ++ Text.numeral site.line ++ ")"

/-- The fault in words: the innermost fault first, then a line for every
directive on the way to it, the nearest first. -/
def message : Fault → String
  | malformedInclusion site => "malformed include directive: " ++ place site
  | unresolved path site cause =>
    "include provider error: \"" ++ cause.message ++ "\" when trying to include "
      ++ Text.quoted path ++ "; triggered in " ++ place site
  | unterminated key point =>
    "premature termination of " ++ Text.quoted key ++ " in scanner state " ++ point.label
  | tooDeep site limit =>
    "nesting deeper than " ++ Text.numeral limit ++ " levels; triggered in " ++ place site
  | nested site inner =>
    inner.message ++ "\n    at " ++ site.key ++ ":" ++ Text.numeral site.line

/-- The fault below all wrappers. -/
def innermost : Fault → Fault
  | nested _ inner => inner.innermost
  | fault => fault

/-- The directives on the way to the innermost fault, outermost first. -/
def trail : Fault → List Location
  | nested site inner => site :: inner.trail
  | _ => []

end Fault

end ShaderWeave
