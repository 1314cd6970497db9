import ShaderWeave.SourceUnit
import ShaderWeave.Text.Quoted

/-!
# Suppliers of included text

An inclusion names a path; a supplier says what stands behind it. A supplier
may keep state from one request to the next, so that it can refuse to hand out
the same text twice.

## Main definitions

- `Cause`: why a request failed.
- `Reply`: the answer to a request.
- `Supplier`: answers requests, given and returning its state.
-/

namespace ShaderWeave

/-- Why a request failed. -/
inductive Cause where
  | notFound (path : String)
  /-- What the path leads to cannot be read, for the given reason. -/
  | unreadable (path reason : String)
  | other (text : String)
deriving DecidableEq

def Cause.message : Cause → String
  | notFound path => Text.quoted path ++ " not found in any of the search paths"
  | unreadable path reason => "failed to read " ++ Text.quoted path ++ ": " ++ reason
  | other text => text

/-- The answer to a request. -/
inductive Reply where
  /-- The text behind the path. -/
  | fresh (unit : SourceUnit)
  /-- The text has been handed out before and is not needed again. -/
  | repeated
  | failed (cause : Cause)
deriving DecidableEq

/-- Answers requests for paths. The state may change with every request. -/
structure Supplier (σ : Type) where
  /-- The answer to a request for a path, and the state after it. -/
  request : σ → String → Reply × σ

end ShaderWeave
