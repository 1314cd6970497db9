import ShaderWeave.Event
import ShaderWeave.Fault
import ShaderWeave.Output.Basic
import ShaderWeave.Supply.Basic

/-!
# State of a pass

A pass writes to one output, asks one supplier, and keeps a record of what it
asked and of its events. A pass that stops with a fault keeps all it did before.

## Main definitions

- `Exchange`: a request and its reply.
- `Pass`: the state that all units of a pass share.
- `WeaveM`: actions on that state that may stop with a fault.
- `WeaveM.onOutput`, `WeaveM.report`, `WeaveM.request`: the basic actions.
-/

namespace ShaderWeave

/-- A request for a path, and what the supplier replied. -/
structure Exchange where
  path : String
  reply : Reply
deriving DecidableEq

/-- The state that all units of a pass share. -/
structure Pass (σ : Type) where
  stock : σ
  output : Output := {}
  /-- The requests so far, first request first. -/
  exchanges : Array Exchange := #[]
  /-- The events so far, first event first. -/
  events : Array Event := #[]

/-- The paths requested so far, first requested first. -/
def Pass.requests {σ : Type} (pass : Pass σ) : Array String :=
  pass.exchanges.map (·.path)

/-- Actions on the state of a pass that may stop with a fault. The state at the
fault is kept. -/
abbrev WeaveM (σ : Type) := EStateM Fault (Pass σ)

namespace WeaveM

variable {σ : Type}

def onOutput (f : Output → Output) : WeaveM σ Unit :=
  modify fun pass => { pass with output := f pass.output }

def report (event : Event) : WeaveM σ Unit :=
  modify fun pass => { pass with events := pass.events.push event }

/-- Ask the supplier for a path, and record what it replies. -/
def request (supplier : Supplier σ) (path : String) : WeaveM σ Reply :=
  modifyGet fun pass =>
    let (reply, stock) := supplier.request pass.stock path
    (reply, { pass with stock := stock, exchanges := pass.exchanges.push ⟨path, reply⟩ })

end WeaveM

end ShaderWeave
