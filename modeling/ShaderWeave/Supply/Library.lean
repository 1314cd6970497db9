import ShaderWeave.Supply.Basic

/-!
# Texts kept in memory

A library maps keys to texts and hands out each of them once, until it is told
to start over.

## Main definitions

- `Library`: the texts and the keys handed out so far.
- `Library.insert`, `Library.reset`, `Library.request`: its operations.
- `Library.supplier`: a library as a supplier.
-/

namespace ShaderWeave

/-- Texts by key, and the keys handed out since the last reset. -/
structure Library where
  /-- The texts by key. A key occurs once. -/
  texts : List (String × String) := []
  /-- The keys handed out, latest first. -/
  handedOut : List String := []
deriving DecidableEq

namespace Library

def empty : Library := {}

/-- Keep a text under a key, in place of the text kept there before. -/
def insert (lib : Library) (key text : String) : Library :=
  { lib with texts := (key, text) :: lib.texts.filter (·.1 != key) }

/-- The library of the given keys and texts. A later text replaces an earlier
one of the same key. -/
def ofList (pairs : List (String × String)) : Library :=
  pairs.foldl (fun lib pair => lib.insert pair.1 pair.2) empty

def text? (lib : Library) (key : String) : Option String :=
  lib.texts.lookup key

def reset (lib : Library) : Library :=
  { lib with handedOut := [] }

/-- Hand out the text kept under a path, unless that was done before. -/
def request (lib : Library) (path : String) : Reply × Library :=
  match lib.text? path with
  | none => (.failed (.notFound path), lib)
  | some text =>
    if path ∈ lib.handedOut then (.repeated, lib)
    else (.fresh ⟨path, text⟩, { lib with handedOut := path :: lib.handedOut })

def supplier : Supplier Library :=
  ⟨request⟩

/-- Dropping one key does not change what is found under another. -/
theorem lookup_filter_ne {key path : String} (h : path ≠ key) (texts : List (String × String)) :
    (texts.filter (·.1 != key)).lookup path = texts.lookup path := by
  induction texts with
  | nil => rfl
  | cons entry texts ih =>
    obtain ⟨k, text⟩ := entry
    by_cases hk : k = key
    · subst hk
      simpa [List.lookup_cons, beq_eq_false_iff_ne.mpr h] using ih
    · simp [hk, List.lookup_cons, ih]

/-- After an insertion the key has the new text, and all others are as before. -/
theorem text?_insert (lib : Library) (key text path : String) :
    (lib.insert key text).text? path = if path = key then some text else lib.text? path := by
  unfold text? insert
  by_cases h : path = key
  · simp [h]
  · simp [List.lookup_cons, h, beq_eq_false_iff_ne.mpr h, lookup_filter_ne h]

end Library

end ShaderWeave
