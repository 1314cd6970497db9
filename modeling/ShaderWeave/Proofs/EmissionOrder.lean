import ShaderWeave.Proofs.Grouping
import ShaderWeave.Supply.Library
import ShaderWeave.Weave.Entry

/-!
# The order of emission

A plan holds its segments in the order of their ranks: by placeholder name, by scope and
by priority. Segments of one rank stand in it as they were registered. These two facts
leave no choice, so a plan depends only on what was registered for each rank, and not on
how the registrations for different ranks were mixed.

## Main definitions

- `Inventory.Step`, `Inventory.after`: the registered segments after several operations.
- `Inventory.group`: the segments of one placeholder and priority, as registered.

## Main results

- `Plan.eq_of_filter_rank`: a list in order is determined by its segments of each rank.
- `registration_order_irrelevant`: what this means for a pass.
-/

namespace ShaderWeave

namespace Plan

variable {s : Segment} {ss ts : List Segment}

/-! ## Segments of one rank -/

theorem mem_iff_of_filter_rank
    (h : ∀ rank, ss.filter (·.rank = rank) = ts.filter (·.rank = rank)) (x : Segment) :
    x ∈ ss ↔ x ∈ ts := by
  have hx : x ∈ ss.filter (·.rank = x.rank) ↔ x ∈ ts.filter (·.rank = x.rank) := by
    rw [h x.rank]
  simpa using hx

/-- Lists in the order of the ranks that have the same segments of each rank, in the same
order, are equal. -/
theorem eq_of_filter_rank (hs : ss.Pairwise (·.rank ≤ ·.rank))
    (ht : ts.Pairwise (·.rank ≤ ·.rank))
    (h : ∀ rank, ss.filter (·.rank = rank) = ts.filter (·.rank = rank)) : ss = ts := by
  induction ss generalizing ts with
  | nil =>
    cases ts with
    | nil => rfl
    | cons t ts =>
      have hmem := (mem_iff_of_filter_rank h t).mpr List.mem_cons_self
      cases hmem
  | cons s ss ih =>
    cases ts with
    | nil =>
      have hmem := (mem_iff_of_filter_rank h s).mp List.mem_cons_self
      cases hmem
    | cons t ts =>
      obtain ⟨hsHead, hsTail⟩ := List.pairwise_cons.mp hs
      obtain ⟨htHead, htTail⟩ := List.pairwise_cons.mp ht
      -- each of the two first segments occurs in the other list, so neither ranks above the other
      have hle : s.rank ≤ t.rank := by
        rcases List.mem_cons.mp ((mem_iff_of_filter_rank h t).mpr List.mem_cons_self) with heq | hin
        · exact heq ▸ le_rfl
        · exact hsHead t hin
      have hge : t.rank ≤ s.rank := by
        rcases List.mem_cons.mp ((mem_iff_of_filter_rank h s).mp List.mem_cons_self) with heq | hin
        · exact heq ▸ le_rfl
        · exact htHead s hin
      have hrank : s.rank = t.rank := le_antisymm hle hge
      have hfirst := h s.rank
      simp only [List.filter_cons, hrank, decide_true, if_true, List.cons.injEq] at hfirst
      obtain ⟨rfl, -⟩ := hfirst
      have hothers : ∀ rank, ss.filter (·.rank = rank) = ts.filter (·.rank = rank) := by
        intro rank
        have hall := h rank
        by_cases hs : s.rank = rank
        · simpa [hs] using hall
        · simpa [hs] using hall
      rw [ih hsTail htTail hothers]

/-- The order of emission depends on the segments of each rank only. -/
theorem arrange_congr (h : ∀ rank, ss.filter (·.rank = rank) = ts.filter (·.rank = rank)) :
    arrange Segment.Before ss = arrange Segment.Before ts := by
  refine eq_of_filter_rank (pairwise_arrange Segment.before_iff ss)
    (pairwise_arrange Segment.before_iff ts) fun rank => ?_
  rw [filter_arrange Segment.before_iff, filter_arrange Segment.before_iff, h]

end Plan

/-! ## Registering segments -/

namespace Inventory

/-- An operation on the registered segments. -/
inductive Step where
  | add (s : Segment)
  | removeNamed (name : String)
  | clear

def apply (inv : Inventory) : Step → Inventory
  | .add s => inv.add s
  | .removeNamed name => (inv.removeNamed name).1
  | .clear => inv.clear

/-- What is registered after several operations, beginning with nothing. -/
def after (steps : List Step) : Inventory :=
  steps.foldl apply empty

/-- The segments of a placeholder and a priority, first registered first. -/
def group (inv : Inventory) (placeholder : Placeholder) (priority : Nat) : List Segment :=
  inv.segments.filter fun s => s.placeholder = placeholder ∧ s.priority = priority

theorem filter_rank_eq_group (inv : Inventory) (s : Segment) :
    inv.segments.filter (·.rank = s.rank) = inv.group s.placeholder s.priority := by
  simp only [group, Segment.rank_eq_iff]

/-- A plan depends on the groups only. -/
theorem plan_congr {inv inv' : Inventory}
    (h : ∀ placeholder priority, inv.group placeholder priority = inv'.group placeholder priority) :
    inv.plan = inv'.plan := by
  have hrank : ∀ rank,
      inv.segments.filter (·.rank = rank) = inv'.segments.filter (·.rank = rank) := by
    intro rank
    obtain ⟨s, rfl⟩ := Segment.rank_surjective rank
    rw [filter_rank_eq_group, filter_rank_eq_group, h]
  simp only [plan, Plan.ofList, Plan.arrange_congr hrank]

end Inventory

/-- If two histories of registrations leave the same segments for each placeholder and
priority, in the same order, then it makes no difference how segments of different
placeholders or priorities were mixed: the same placeholders are recognised, the same
segments are emitted for each in the same order, and every pass ends in the same way,
with the same output or fault, requests and events. -/
theorem registration_order_irrelevant (steps steps' : List Inventory.Step)
    (hgroups : ∀ placeholder priority,
      (Inventory.after steps).group placeholder priority =
        (Inventory.after steps').group placeholder priority) :
    let plan := (Inventory.after steps).plan
    let plan' := (Inventory.after steps').plan
    (∀ text, plan.placeholderAt? text = plan'.placeholderAt? text) ∧
    (∀ name, plan.segmentsFor name = plan'.segmentsFor name) ∧
    ∀ (σ : Type) (supplier : Supplier σ) (limit : Nat) (unit : SourceUnit) (stock : σ),
      Weaver.weave ⟨supplier, plan, limit⟩ unit stock =
        Weaver.weave ⟨supplier, plan', limit⟩ unit stock := by
  intro plan plan'
  have hplan : plan = plan' := Inventory.plan_congr hgroups
  refine ⟨fun text => ?_, fun name => ?_, fun σ supplier limit unit stock => ?_⟩
  · rw [hplan]
  · rw [hplan]
  · rw [hplan]

namespace Sample

def early : Segment :=
  { placeholder := ⟨"#pragma P", "b"⟩, name := "early", snippet := "early;", priority := 3 }

def first : Segment :=
  { placeholder := ⟨"#pragma P", "a"⟩, name := "first", snippet := "first;" }

def second : Segment :=
  { placeholder := ⟨"#pragma P", "a"⟩, name := "second", snippet := "second;" }

/-- The segment of another scope is registered first. -/
def steps : List Inventory.Step :=
  [.add early, .add first, .add second]

/-- It is registered in between, and what else is registered is taken back. -/
def otherSteps : List Inventory.Step :=
  [.add second, .clear, .add first, .add { early with name := "gone" }, .add early,
    .removeNamed "gone", .add second]

end Sample

/-- Both histories lead to the same pass, which emits the scopes in their order. -/
theorem registration_order_irrelevant_sample :
    (Inventory.after Sample.steps).segments ≠ (Inventory.after Sample.otherSteps).segments ∧
    ((Inventory.after Sample.otherSteps).plan.segmentsFor "#pragma P").map (·.name) =
      ["first", "second", "early"] ∧
    Weaver.weave ⟨Library.supplier, (Inventory.after Sample.steps).plan, 1⟩
        ⟨"main", "#pragma P"⟩ Library.empty =
      Weaver.weave ⟨Library.supplier, (Inventory.after Sample.otherSteps).plan, 1⟩
        ⟨"main", "#pragma P"⟩ Library.empty := by
  have hsegments : (Inventory.after Sample.steps).segments =
      [Sample.early, Sample.first, Sample.second] := by decide
  have hsegments' : (Inventory.after Sample.otherSteps).segments =
      [Sample.first, Sample.early, Sample.second] := by decide
  have hgroups : ∀ placeholder priority,
      (Inventory.after Sample.steps).group placeholder priority =
        (Inventory.after Sample.otherSteps).group placeholder priority := by
    intro placeholder priority
    rw [Inventory.group, Inventory.group, hsegments, hsegments']
    by_cases hpriority : priority = 3
    · simp [hpriority, List.filter_cons, Sample.early, Sample.first, Sample.second,
        Segment.defaultPriority]
    · simp [Ne.symm hpriority, List.filter_cons, Sample.early]
  obtain ⟨-, hemitted, hpass⟩ :=
    registration_order_irrelevant Sample.steps Sample.otherSteps hgroups
  refine ⟨by decide, ?_, hpass Library Library.supplier 1 ⟨"main", "#pragma P"⟩ Library.empty⟩
  rw [← hemitted]
  decide +kernel

end ShaderWeave
