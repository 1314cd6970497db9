import ShaderWeave.Proofs.Ownership
import ShaderWeave.Supply.Library

/-!
# Origins are right

The origin of an output line names the line it shows. What stands on the output
line is that line, or the white space in front of an inclusion whose text came
before; in front of it there may be the white space of the directive that led to
the unit, but only on the unit's first line.

## Main definitions

- `Weaver.Reads`: the units that a pass may scan, by where they come from.

## Main results

- `origin_shows_line`: every output line has an owner, and shows it.
-/

namespace ShaderWeave

variable {σ : Type} {w : Weaver σ} {unit : SourceUnit} {stock : σ} {output : Output} {pass : Pass σ}

namespace Weaver

/-- Where the units of a pass come from: a pass is given its entry unit, the
supplier hands out others, and the rest are segments moved to some column. -/
inductive Reads (w : Weaver σ) (entry : SourceUnit) (exchanges : Array Exchange) :
    SourceUnit → Prop where
  | entry : Reads w entry exchanges entry
  | supplied {path : String} {inner : SourceUnit} (h : ⟨path, .fresh inner⟩ ∈ exchanges) :
    Reads w entry exchanges inner
  | segment {s : Segment} (h : s ∈ w.plan.segments) (column : Nat) :
    Reads w entry exchanges (s.unit column)

/-- A unit that a directive leads to is a segment, or the supplier has handed it
out by the time it is visited. -/
theorem Calls.reads {room : Nat} {key : String} {cur : Cursor} {q : Pass σ} {d : Directive}
    {u : Visit σ} (h : w.Calls room key cur q d u) (entry : SourceUnit) :
    w.Reads entry u.pass.exchanges u.unit := by
  cases h with
  | @inclusion path inner room' _ hreply =>
    apply Reads.supplied
    show ⟨path, .fresh inner⟩ ∈ (w.asked q path).exchanges
    simp [asked, hreply]
  | @placeholder name _ hstarts =>
    obtain ⟨_, hsegments, _⟩ := hstarts
    next s _ _ _ _ =>
    have hmem : s ∈ w.plan.segmentsFor name := by
      rw [hsegments]
      simp
    exact .segment (Plan.mem_segments_of_mem_segmentsFor hmem) cur.column

theorem Reads.mono {entry u : SourceUnit} {exchanges exchanges' : Array Exchange}
    (h : w.Reads entry exchanges u) (hpre : exchanges.toList <+: exchanges'.toList) :
    w.Reads entry exchanges' u := by
  cases h with
  | entry => exact .entry
  | supplied hmem =>
    have hmem' := hpre.subset (Array.mem_toList_iff.mpr hmem)
    exact .supplied (Array.mem_toList_iff.mp hmem')
  | segment hmem column => exact .segment hmem column

theorem Visited.reads {u : Visit σ} (hu : w.Visited (w.root unit stock) u)
    (h : w.weave unit stock = .ok output pass) : w.Reads unit pass.exchanges u.unit := by
  obtain ⟨p, hends, _, hexchanges⟩ := weave_eq_ok h
  obtain ⟨q, hends', hlater⟩ := hu.ends hends
  have hpre := hends'.later.extends.exchanges.trans hlater.extends.exchanges
  rw [hexchanges]
  rcases hu.cases_tail with rfl | ⟨v, _, j, henters⟩
  · exact .entry
  · obtain ⟨_, _, _, _, _, _, _, _, _, hcalls⟩ := henters
    exact (hcalls.reads unit).mono hpre

end Weaver

/-- The first line of the entry unit begins the output. -/
theorem Visit.AtLine.tail_eq_nil_of_root {v : Visit σ} {j : Nat} {q : Pass σ} {a : Sheet}
    (h : v.AtLine w j q a) (hfirst : 0 < j ∨ v = w.root unit stock) : a.tail = [] := by
  rcases Nat.eq_zero_or_pos j with rfl | hpos
  · have hroot : v = w.root unit stock := hfirst.resolve_left (Nat.lt_irrefl 0)
    subst hroot
    have hstart : (w.root unit stock).AtLine w 0 (w.root unit stock).pass {} :=
      Visit.atLine_zero rfl (Sheet.fresh_of_tail_eq_nil rfl)
    obtain ⟨-, rfl⟩ := h.unique hstart
    rfl
  · exact h.margin hpos

/-- In a pass that succeeds every output line with an origin is owned by a line of
a unit that the pass has visited. A line that owns an output line is named by the
origin, was not replaced by a directive, and stands on the output line behind
nothing but white space, of which there is none unless the line is the first of a
nested unit. -/
theorem origin_shows_line (h : w.weave unit stock = .ok output pass) :
    (∀ i l, output.origin? i = some l →
      ∃ v j, w.Visited (w.root unit stock) v ∧ v.Owns w j i) ∧
    ∀ v j i, w.Visited (w.root unit stock) v → v.Owns w j i →
      output.origin? i = some ⟨v.unit.key, j + 1⟩ ∧
      w.Reads unit pass.exchanges v.unit ∧
      (∀ u, ¬ v.Enters w j u) ∧
      ∃ q line blanks content, v.Begins w j q ∧ (Text.lines v.text)[j]? = some line ∧
        v.Retains w j q line content ∧
        (Text.lines output.text.toList)[i]? = some (blanks ++ content) ∧
        (∀ c ∈ blanks, Text.isSpace c) ∧ (0 < j ∨ v = w.root unit stock → blanks = []) := by
  obtain ⟨t, rfl, hruns⟩ := w.runs_of_weave h
  constructor
  · intro i l hl
    rw [t.origin?_output] at hl
    obtain ⟨row, hrow, _⟩ := Option.map_eq_some_iff.mp hl
    have hlt := (List.getElem?_eq_some_iff.mp hrow).1
    exact hruns.exists_owner (hruns.yields_iff.mpr ⟨Nat.zero_le i, hlt⟩)
  · intro v j i hv hi
    obtain ⟨q, a, line, content, hat, hline, hretains, hnone, hrow⟩ :=
      (hruns.within_of_visited hv).exists_row hi
    refine ⟨?_, hv.reads h, hnone, q, line, a.tail, content, hat.begins, hline, hretains,
      Sheet.lines_output_getElem? hrow, hat.fresh.2, hat.tail_eq_nil_of_root⟩
    rw [t.origin?_output, hrow]
    rfl

/-! ## A pass with nesting -/

namespace Sample

/-- Two segments for one placeholder. -/
def plan : Plan :=
  .ofList [{ placeholder := ⟨"#pragma SETUP", ""⟩, name := "tint", snippet := "tint();\nmix();" },
    { placeholder := ⟨"#pragma SETUP", ""⟩, name := "fog", snippet := "fog();" }]

def weaver : Weaver Library :=
  { supplier := Library.supplier, plan := plan, limit := 1 }

def library : Library :=
  .ofList [("noise", "float p;\nfloat q;")]

/-- An inclusion, the same again, one in a comment, and a placeholder. -/
def entry : SourceUnit :=
  ⟨"main", "in x;\n  #include \"noise\"\n\t#include \"noise\"\n/* #include \"noise\"\n*/\n" ++
    "  #pragma SETUP\nend"⟩

def woven : Output where
  text := "in x;\n  float p;\nfloat q;\n\t\n/* #include \"noise\"\n*/\n" ++
    "  tint();\n  mix();\n  fog();\nend"
  origins := #[⟨"main", 1⟩, ⟨"noise", 1⟩, ⟨"noise", 2⟩, ⟨"main", 3⟩, ⟨"main", 4⟩, ⟨"main", 5⟩,
    ⟨"tint[#pragma SETUP,1000]", 1⟩, ⟨"tint[#pragma SETUP,1000]", 2⟩,
    ⟨"fog[#pragma SETUP,1000]", 1⟩, ⟨"main", 7⟩]
  closed := 9

theorem weave_eq_ok : ∃ pass, weaver.weave entry library = .ok woven pass := by
  decide +kernel

end Sample

/-- The second output line of the sample is owned by the first line of a unit that
was included behind white space. -/
theorem origin_shows_line_sample : ∃ pass,
    Sample.weaver.weave Sample.entry Sample.library = .ok Sample.woven pass ∧
    ∃ v, Sample.weaver.Visited (Sample.weaver.root Sample.entry Sample.library) v ∧
      v.Owns Sample.weaver 0 1 ∧ v.unit.key = "noise" ∧
      Sample.weaver.Reads Sample.entry pass.exchanges v.unit := by
  obtain ⟨pass, h⟩ := Sample.weave_eq_ok
  have hl : Sample.woven.origin? 1 = some ⟨"noise", 1⟩ := by decide
  obtain ⟨v, j, hvisited, howns⟩ := (origin_shows_line h).1 1 _ hl
  obtain ⟨horigin, hreads, _⟩ := (origin_shows_line h).2 v j 1 hvisited howns
  rw [hl] at horigin
  obtain ⟨hkey, hline⟩ := Location.mk.inj (Option.some.inj horigin)
  obtain rfl : j = 0 := by omega
  exact ⟨pass, h, v, hvisited, howns, hkey.symm, hreads⟩

end ShaderWeave
