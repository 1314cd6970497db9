import ShaderWeave.Location

/-!
# Events of a pass

What a pass tells about its progress, for diagnostics.

## Main definitions

- `Event`: something that happened at a directive or at the end of a pass.
- `Event.message`, `Event.level`: its wording, and how detailed it is.
-/

namespace ShaderWeave

/-- How closely one must look to be told about an event. -/
inductive EventLevel where
  /-- Told when looking for faults. -/
  | debug
  /-- Told only when following every step. -/
  | trace
deriving DecidableEq

/-- Something that happened during a pass. -/
inductive Event where
  /-- The inclusion of `path` at `site` is replaced by the unit of key `resolved`. -/
  | expanding (site : Location) (path resolved : String)
  /-- The inclusion of `path` at `site` is dropped, as its text came before. -/
  | skipped (site : Location) (path : String)
  /-- All `count` segments of the placeholder at `site` have been injected. -/
  | injected (site : Location) (placeholder : String) (count : Nat)
  /-- The pass over the unit of key `key` has succeeded with `lines` origins. -/
  | finished (key : String) (lines : Nat)
deriving DecidableEq

namespace Event

def message : Event → String
  | expanding .. => "expanding include"
  | skipped .. => "skipping already included file"
  | injected .. => "injected segments"
  | finished .. => "preprocessed shader source"

/-- A dropped inclusion is a detail; all else matters when looking for faults. -/
def level : Event → EventLevel
  | skipped .. => .trace
  | _ => .debug

end Event

end ShaderWeave
