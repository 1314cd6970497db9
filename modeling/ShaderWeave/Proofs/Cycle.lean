import Mathlib.Data.Finset.Card
import ShaderWeave.Proofs.Limit

/-!
# Cycles of inclusions

A library hands out each of its texts once. So an inclusion that stands for a unit
takes away one of the keys that are still available, and units that include one
another are nested no deeper than there are such keys. A cycle comes to its end
before a limit that leaves room for all of them is reached.

## Main definitions

- `Library.available`: the keys whose texts have not been handed out.
- `Pass.handedOut`: the keys of the units that a pass has been handed.
- `Pass.Spent`: what a pass has been handed is no longer available.

## Main results

- `Weaver.Later.spent`: a library hands out no key twice, whatever a pass does.
- `Weaver.Leads.card_available`: every directive on the way down takes a key away.
- `library_breaks_cycles`: both statements for a pass.
-/

namespace ShaderWeave

variable {σ : Type}

/-! ## The keys of a library -/

def Reply.unit? : Reply → Option SourceUnit
  | fresh unit => some unit
  | _ => none

namespace Library

variable {lib : Library} {key path : String} {unit : SourceUnit}

/-- The keys under which the library keeps a text that it has not handed out. -/
def available (lib : Library) : Finset String :=
  (lib.texts.map Prod.fst).toFinset \ lib.handedOut.toFinset

theorem mem_available : key ∈ lib.available ↔ lib.text? key ≠ none ∧ key ∉ lib.handedOut := by
  have htext : lib.text? key ≠ none ↔ ∃ text, (key, text) ∈ lib.texts := by
    simp [text?, List.lookup_eq_none_iff]
  simp [available, htext]

/-- A request either takes away an available key and hands out its text, or hands out
nothing and changes nothing. -/
theorem request_cases (lib : Library) (path : String) :
    (path ∈ lib.available ∧ ∃ text, lib.request path =
      (.fresh ⟨path, text⟩, { lib with handedOut := path :: lib.handedOut })) ∨
    path ∉ lib.available ∧ (lib.request path).1.unit? = none ∧ (lib.request path).2 = lib := by
  rw [mem_available]
  unfold request
  cases lib.text? path with
  | none => simp [Reply.unit?]
  | some text =>
    by_cases hgone : path ∈ lib.handedOut
    · simp [hgone, Reply.unit?]
    · simp [hgone]

theorem available_request (lib : Library) (path : String) :
    (lib.request path).2.available = lib.available.erase path := by
  rcases lib.request_cases path with ⟨-, text, hrequest⟩ | ⟨hgone, -, hsame⟩
  · rw [hrequest]
    ext key
    simp only [Finset.mem_erase, mem_available, text?, List.mem_cons, not_or]
    tauto
  · rw [hsame, Finset.erase_eq_of_notMem hgone]

/-- A unit that is handed out has the path for its key, which was available. -/
theorem mem_available_of_fresh (h : (lib.request path).1 = .fresh unit) :
    unit.key = path ∧ path ∈ lib.available := by
  rcases lib.request_cases path with ⟨havailable, text, hrequest⟩ | ⟨-, hnone, -⟩
  · rw [hrequest] at h
    cases h
    exact ⟨rfl, havailable⟩
  · rw [h] at hnone
    cases hnone

end Library

/-! ## What a pass is handed -/

/-- The keys of the units that the pass has been handed, first one first. -/
def Pass.handedOut (p : Pass σ) : List String :=
  (p.exchanges.toList.filterMap (·.reply.unit?)).map (·.key)

/-- The pass has been handed no key twice, and none that is still available. -/
def Pass.Spent (p : Pass Library) : Prop :=
  p.handedOut.Nodup ∧ ∀ key ∈ p.handedOut, key ∉ p.stock.available

theorem Weaver.handedOut_asked (w : Weaver σ) (p : Pass σ) (path : String) :
    (w.asked p path).handedOut =
      p.handedOut ++ ((w.supplier.request p.stock path).1.unit?.map (·.key)).toList := by
  simp only [asked, Pass.handedOut, Array.toList_push, List.filterMap_append, List.map_append]
  cases hunit : (w.supplier.request p.stock path).1.unit? <;> simp [hunit]

namespace Weaver

variable {w : Weaver Library} {p q : Pass Library} {v u : Visit Library} {sites : List Location}

section

variable (hlib : w.supplier = Library.supplier)
include hlib

theorem available_asked (p : Pass Library) (path : String) :
    (w.asked p path).stock.available = p.stock.available.erase path := by
  rw [asked, hlib]
  exact p.stock.available_request path

theorem Change.spent (h : w.Change p q) (hp : p.Spent) : q.Spent := by
  cases h with
  | request path =>
    rw [Pass.Spent, handedOut_asked, available_asked hlib, hlib]
    rcases p.stock.request_cases path with ⟨havailable, text, hrequest⟩ | ⟨-, hnone, -⟩
    · -- the key was available, so the pass has not been handed it before
      have hnew : path ∉ p.handedOut := fun hold => hp.2 path hold havailable
      have hunit : (Library.supplier.request p.stock path).1.unit? = some ⟨path, text⟩ :=
        congrArg (·.1.unit?) hrequest
      simp only [hunit, Option.map_some, Option.toList_some]
      rw [← List.concat_eq_append]
      refine ⟨hp.1.concat hnew, ?_⟩
      intro key hkey hmem
      obtain ⟨hne, hmem⟩ := Finset.mem_erase.mp hmem
      rcases List.mem_append.mp (List.concat_eq_append ▸ hkey) with hold | hkey
      · exact hp.2 key hold hmem
      · exact hne (List.mem_singleton.mp hkey)
    · have hunit : (Library.supplier.request p.stock path).1.unit? = none := hnone
      simp only [hunit, Option.map_none, Option.toList_none, List.append_nil]
      exact ⟨hp.1, fun key hkey hmem => hp.2 key hkey (Finset.mem_of_mem_erase hmem)⟩
  | _ => exact hp

/-- Whatever a pass does, it is handed no key twice. -/
theorem Later.spent (h : w.Later p q) (hp : p.Spent) : q.Spent := by
  induction h with
  | refl => exact hp
  | tail _ hchange ih => exact hchange.spent hlib ih

theorem Change.available_subset (h : w.Change p q) :
    q.stock.available ⊆ p.stock.available := by
  cases h with
  | request path =>
    rw [available_asked hlib]
    exact Finset.erase_subset path _
  | _ => exact Finset.Subset.refl _

/-- Keys are never put back. -/
theorem Later.available_subset (h : w.Later p q) : q.stock.available ⊆ p.stock.available := by
  induction h with
  | refl => exact Finset.Subset.refl _
  | tail _ hchange ih => exact (hchange.available_subset hlib).trans ih

theorem Later.card_available_le (h : w.Later p q) :
    q.stock.available.card ≤ p.stock.available.card :=
  Finset.card_le_card (h.available_subset hlib)

/-! ## The way down -/

variable (hplan : w.plan.segments = [])
include hplan

/-- Without segments a directive that stands for a unit is an inclusion, and takes away a
key. -/
theorem Calls.card_available {room : Nat} {key : String} {cur : Cursor} {d : Directive}
    (h : w.Calls room key cur p d u) :
    u.pass.stock.available.card + 1 = p.stock.available.card := by
  cases h with
  | @inclusion path inner room' hroom hreply =>
    have hcard : (w.asked p path).stock.available.card + 1 = p.stock.available.card := by
      rw [available_asked hlib]
      rw [hlib] at hreply
      exact Finset.card_erase_add_one (Library.mem_available_of_fresh hreply).2
    exact hcard
  | placeholder hstarts =>
    obtain ⟨-, hsegments, -⟩ := hstarts
    simp [Plan.segmentsFor_eq, hplan] at hsegments

/-- Every directive on the way down takes away a key. -/
theorem Leads.card_available (h : w.Leads v sites u) :
    u.pass.stock.available.card + sites.length ≤ v.pass.stock.available.card := by
  induction h with
  | here v => exact Nat.le_refl _
  | @through v u last j sites hstep _ ih =>
    obtain ⟨d, cur, p, -, ⟨done, rest, hstands, -⟩, hcalls⟩ := hstep
    have hfirst := hcalls.card_available hlib hplan
    have hreached := hstands.later.card_available_le hlib
    rw [List.length_cons]
    omega

theorem Nests.available_pos {text : List Char} {d : Directive}
    (hread : Directive.read? w.plan text = some d) (h : w.Nests p d) :
    0 < p.stock.available.card := by
  match d with
  | .inclusion none => exact h.elim
  | .inclusion (some path) =>
    obtain ⟨inner, hreply⟩ := h
    rw [hlib] at hreply
    exact Finset.card_pos.mpr ⟨path, (Library.mem_available_of_fresh hreply).2⟩
  | .placeholder name =>
    exact absurd (by simp [Plan.segmentsFor_eq, hplan]) (segmentsFor_ne_nil hread)

end

theorem advances_entry (w : Weaver σ) (unit : SourceUnit) : w.Advances (w.entry unit) := by
  refine (advances_unitAt w w.limit unit).bind fun _ => advances_get.bind fun p => ?_
  exact (advances_report _).bind fun _ => advances_pure _

end Weaver

/-- Without segments, a pass that gets its units from a library, in whatever state that
is, is not stopped by a limit that is no smaller than the number of keys not yet
handed out, however the texts include one another. Under any limit it is handed no key
twice. -/
theorem library_breaks_cycles (lib : Library) (limit : Nat) (unit : SourceUnit) :
    let w : Weaver Library :=
      { supplier := Library.supplier, plan := Inventory.empty.plan, limit := limit }
    (lib.available.card ≤ limit →
      ∀ fault pass, w.weave unit lib = .error fault pass → ¬ fault.TooDeep) ∧
    ((w.entry unit).leaves { stock := lib }).handedOut.Nodup := by
  intro w
  constructor
  · rintro hroom fault pass hfails ⟨site, limit', hdeep⟩
    obtain ⟨-, hlength, v, j, d, cur, p, hleads, hacts, -, hreaches⟩ :=
      Weaver.exists_of_tooDeep hfails hdeep
    obtain ⟨done, rest, hstands, hactsOn⟩ := hacts
    obtain ⟨-, -, hread⟩ := Weaver.actsOn?_eq_some_iff.mp hactsOn
    -- the way down has taken a key for each level, and one more is there to be taken
    have hdown := hleads.card_available rfl rfl
    have hreached := hstands.later.card_available_le rfl
    have hleft := hreaches.nests.available_pos rfl rfl hread
    have hstart : (w.root unit lib).pass.stock.available.card = lib.available.card := rfl
    have hlimit : w.limit = limit := rfl
    omega
  · have hlater := Weaver.advances_entry w unit { stock := lib }
    exact (hlater.spent rfl ⟨List.nodup_nil, by simp [Pass.handedOut]⟩).1

namespace Sample

/-- Two texts that include each other, one that includes itself and then a text that
nobody has, and one that was handed out before. -/
def ring : Library :=
  ((Library.ofList [("a", "#include \"b\"\nint a;"), ("b", "  #include \"a\"\n#include \"c\""),
    ("c", "#include \"c\"\n#include \"lost\""), ("d", "int d;")]).request "d").2

def gatherer : Weaver Library where
  supplier := Library.supplier
  plan := Inventory.empty.plan
  limit := 3

def ringEntry : SourceUnit :=
  ⟨"main", "#include \"d\"\n#include \"a\""⟩

/-- The only fault is the last one: all three texts have been visited. -/
def ringFault : Fault :=
  .nested ⟨"main", 2⟩ (.nested ⟨"a", 1⟩ (.nested ⟨"b", 2⟩
    (.unresolved "lost" ⟨"c", 2⟩ (.notFound "lost"))))

end Sample

/-- Three levels are enough for three keys. -/
theorem library_breaks_cycles_sample :
    Sample.ring.available.card = 3 ∧
    (∃ pass, Sample.gatherer.weave Sample.ringEntry Sample.ring =
      .error Sample.ringFault pass) ∧
    ¬ Sample.ringFault.TooDeep := by
  have hcard : Sample.ring.available.card = 3 := by decide +kernel
  have hfails : ∃ pass, Sample.gatherer.weave Sample.ringEntry Sample.ring =
      .error Sample.ringFault pass := by decide +kernel
  refine ⟨hcard, hfails, ?_⟩
  obtain ⟨pass, hfails⟩ := hfails
  exact (library_breaks_cycles Sample.ring 3 _).1 (Nat.le_of_eq hcard) _ pass hfails

end ShaderWeave
