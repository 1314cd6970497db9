import ShaderWeave.Fault

/-!
# Faults as chains

A fault is a fault without wrappers and the directives that it has been wrapped with. The two
tell all there is to tell of it: they give the fault back, no other two do so, and its message
is put together from theirs. The directives stand in the trail from the outermost on, and in
the message from the innermost on.

## Main definitions

- `Fault.Unwrapped`: the fault is no wrapper.
- `Location.passage`: the line of a message that names a directive on the way.

## Main results

- `Fault.eq_foldr_nested_iff`: the parts of a fault, and that they are its only ones.
- `Fault.message_foldr_nested`: the message of a wrapped fault.
- `fault_is_its_chain`: the whole statement.
-/

namespace ShaderWeave

/-- The line of a message that names a directive on the way to a fault. -/
def Location.passage (site : Location) : String :=
  "\n    at " ++ site.key ++ ":" ++ Text.numeral site.line

namespace Fault

/-- The fault is not the wrapper of another one. -/
def Unwrapped (fault : Fault) : Prop :=
  ∀ site inner, fault ≠ .nested site inner

variable {core fault : Fault}

theorem unwrapped_innermost (fault : Fault) : fault.innermost.Unwrapped := by
  induction fault with
  | nested site inner ih => exact ih
  | _ => intro _ _ h; cases h

theorem Unwrapped.innermost_eq (h : core.Unwrapped) : core.innermost = core := by
  cases core with
  | nested site inner => exact absurd rfl (h site inner)
  | _ => rfl

theorem Unwrapped.trail_eq_nil (h : core.Unwrapped) : core.trail = [] := by
  cases core with
  | nested site inner => exact absurd rfl (h site inner)
  | _ => rfl

/-! ## Wrapping -/

theorem innermost_foldr_nested (sites : List Location) (fault : Fault) :
    (sites.foldr .nested fault).innermost = fault.innermost := by
  induction sites with
  | nil => rfl
  | cons site sites ih => exact ih

theorem trail_foldr_nested (sites : List Location) (fault : Fault) :
    (sites.foldr .nested fault).trail = sites ++ fault.trail := by
  induction sites with
  | nil => rfl
  | cons site sites ih => exact congrArg (site :: ·) ih

theorem message_nested (site : Location) (fault : Fault) :
    (nested site fault).message = fault.message ++ site.passage := by
  have hmessage : (nested site fault).message =
      fault.message ++ "\n    at " ++ site.key ++ ":" ++ Text.numeral site.line := rfl
  simp only [hmessage, Location.passage, String.append_assoc]

/-- A directive that a fault was wrapped with later is named further down in the message. -/
theorem message_foldr_nested (sites : List Location) (fault : Fault) :
    (sites.foldr .nested fault).message =
      fault.message ++ String.join (sites.reverse.map Location.passage) := by
  induction sites with
  | nil => simp
  | cons site sites ih =>
    rw [List.foldr_cons, message_nested, ih, String.append_assoc]
    simp

/-! ## Taking apart -/

theorem foldr_nested_trail (fault : Fault) : fault.trail.foldr .nested fault.innermost = fault := by
  induction fault with
  | nested site inner ih => exact congrArg (nested site) ih
  | _ => rfl

/-- A fault has only one core, and there is only one way to wrap it. -/
theorem eq_foldr_nested_iff (h : core.Unwrapped) {sites : List Location} :
    fault = sites.foldr .nested core ↔ sites = fault.trail ∧ core = fault.innermost := by
  constructor
  · rintro rfl
    rw [trail_foldr_nested, innermost_foldr_nested, h.trail_eq_nil, h.innermost_eq]
    exact ⟨(List.append_nil sites).symm, rfl⟩
  · rintro ⟨rfl, rfl⟩
    exact fault.foldr_nested_trail.symm

end Fault

/-- The innermost fault is no wrapper. Wrapped with the directives of the trail, the last of
them first, it is the fault again, and no other core and no other directives give this fault.
The message is that of the innermost fault, followed by a line for every directive of the
trail, the last of them first. -/
theorem fault_is_its_chain (fault : Fault) :
    fault.innermost.Unwrapped ∧
    fault.trail.foldr .nested fault.innermost = fault ∧
    (∀ sites core, core.Unwrapped → fault = sites.foldr .nested core →
      sites = fault.trail ∧ core = fault.innermost) ∧
    fault.message = fault.innermost.message ++ String.join (fault.trail.reverse.map fun site =>
      "\n    at " ++ site.key ++ ":" ++ Text.numeral site.line) := by
  refine ⟨fault.unwrapped_innermost, fault.foldr_nested_trail, ?_, ?_⟩
  · intro sites core hcore hfault
    exact (Fault.eq_foldr_nested_iff hcore).mp hfault
  · calc fault.message
      _ = (fault.trail.foldr .nested fault.innermost).message := by rw [fault.foldr_nested_trail]
      _ = _ := Fault.message_foldr_nested fault.trail fault.innermost

example :
    (Fault.nested ⟨"main", 8⟩ (.nested ⟨"deep", 2⟩ (.unterminated "y" .inside))).message =
      "premature termination of \"y\" in scanner state BlockComment1\n" ++
        "    at deep:2\n    at main:8" := by decide +kernel

end ShaderWeave
