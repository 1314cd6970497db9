import ShaderWeave.Segment.Basic

/-!
# Inventory of segments

The segments that have been registered for later passes, in the order of their
registration.

## Main definitions

- `Inventory`: the registered segments.
- `Inventory.add`, `Inventory.removeNamed`, `Inventory.clear`: its operations.
-/

namespace ShaderWeave

/-- Registered segments, first registered first. -/
structure Inventory where
  segments : List Segment := []
deriving DecidableEq

namespace Inventory

def empty : Inventory := {}

def add (inv : Inventory) (s : Segment) : Inventory :=
  ⟨inv.segments ++ [s]⟩

def ofList (segments : List Segment) : Inventory :=
  segments.foldl add empty

/-- Drop every segment of the given name, and tell how many there were. -/
def removeNamed (inv : Inventory) (name : String) : Inventory × Nat :=
  (⟨inv.segments.filter (·.name != name)⟩, inv.segments.countP (·.name == name))

def clear (_ : Inventory) : Inventory := empty

def size (inv : Inventory) : Nat :=
  inv.segments.length

def isEmpty (inv : Inventory) : Bool :=
  inv.segments.isEmpty

/-- A dropped segment is counted: what stays and what goes make up the whole. -/
theorem size_removeNamed (inv : Inventory) (name : String) :
    (inv.removeNamed name).1.size + (inv.removeNamed name).2 = inv.size := by
  simp only [removeNamed, size, ← List.countP_eq_length_filter]
  rw [Nat.add_comm, List.length_eq_countP_add_countP (·.name == name)]
  congr 2
  funext s
  by_cases h : s.name = name <;> simp [h]

end Inventory

end ShaderWeave
