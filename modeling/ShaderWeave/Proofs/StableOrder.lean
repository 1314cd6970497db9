import Mathlib.Data.List.Sort
import ShaderWeave.Proofs.EmissionOrder
import ShaderWeave.Proofs.LineReading

/-!
# What a plan holds for a placeholder

A plan is arranged for all placeholders at once, and grouped by them. Seen from one
placeholder name it is a stable sort of the segments registered under that name, whatever
scopes they are spread over. It lists every name that segments are registered under once,
and recognises just these, so no placeholder is recognised in vain.

## Main definitions

- `Segment.turn`: what decides the place of a segment among those of its placeholder name.
- `Text.Trims`: a line without the white space at its end.

## Main results

- `Plan.segmentsFor_ofList`: the segments for a name are those registered, stably sorted.
- `Plan.mem_names_ofList`: which names a plan lists.
- `Plan.placeholderAt?_ofList`: which line names which placeholder.
- `plan_sorts_segments_stably`: all together.
-/

namespace ShaderWeave

/-! ## Segments of one name -/

namespace Segment

/-- What decides the place of a segment among those of one placeholder name: its scope, and
within the scope its priority. -/
def turn (s : Segment) : String ×ₗ Nat :=
  toLex (s.placeholder.scope, s.priority)

theorem rank_le_iff {s t : Segment} (h : s.placeholder.name = t.placeholder.name) :
    s.rank ≤ t.rank ↔ s.turn ≤ t.turn := by
  have hrank : ∀ u : Segment, u.rank = toLex (u.placeholder.name, u.turn) := fun _ => rfl
  simp [hrank, Prod.Lex.toLex_le_toLex, h]

end Segment

namespace Plan

/-- A stable sort leaves segments of one rank in their order. -/
theorem filter_mergeSort (ss : List Segment) (rank : String ×ₗ String ×ₗ Nat) :
    (ss.mergeSort fun s t => s.turn ≤ t.turn).filter (·.rank = rank) =
      ss.filter (·.rank = rank) := by
  have hrank : ∀ s ∈ ss.filter (·.rank = rank), s.rank = rank := by
    intro s hs
    simpa using (List.mem_filter.mp hs).2
  have hsorted : (ss.filter (·.rank = rank)).Pairwise fun s t => decide (s.turn ≤ t.turn) := by
    apply List.pairwise_of_forall_mem_list
    intro s hs t ht
    have hst : s.rank = t.rank := (hrank s hs).trans (hrank t ht).symm
    have hname := congrArg Placeholder.name (Segment.rank_eq_iff.mp hst).1
    exact decide_eq_true ((Segment.rank_le_iff hname).mp hst.le)
  have hsublist : (ss.filter (·.rank = rank)).Sublist
      (ss.mergeSort fun s t => s.turn ≤ t.turn) := by
    refine List.sublist_mergeSort ?_ ?_ hsorted List.filter_sublist
    · intro a b c hab hbc
      exact decide_eq_true ((of_decide_eq_true hab).trans (of_decide_eq_true hbc))
    · intro a b
      simpa using le_total a.turn b.turn
  -- sorting adds nothing, so what has been found in the sorted list is all there is
  have hfound := hsublist.filter (·.rank = rank)
  simp only [List.filter_filter, Bool.and_self] at hfound
  exact (hfound.eq_of_length ((List.mergeSort_perm ss _).filter _).length_eq.symm).symm

/-- What is emitted for a placeholder name are the segments registered under that name,
stably sorted by scope and priority. -/
theorem segmentsFor_ofList (segments : List Segment) (name : String) :
    (ofList segments).segmentsFor name =
      (segments.filter (·.placeholder.name == name)).mergeSort fun s t => s.turn ≤ t.turn := by
  rw [segmentsFor_eq, segments_ofList]
  apply eq_of_filter_rank
  · exact (pairwise_arrange Segment.before_iff segments).filter _
  · refine (List.pairwise_mergeSort' (fun s t : Segment => s.turn ≤ t.turn) _).imp_of_mem ?_
    have hname : ∀ s ∈ (segments.filter (·.placeholder.name == name)).mergeSort
        fun s t => s.turn ≤ t.turn, s.placeholder.name = name := by
      intro s hs
      simpa using (List.mem_filter.mp (List.mem_mergeSort.mp hs)).2
    intro s t hs ht hle
    exact (Segment.rank_le_iff ((hname s hs).trans (hname t ht).symm)).mpr hle
  · intro rank
    rw [filter_mergeSort, List.filter_comm, filter_arrange Segment.before_iff, List.filter_comm]

end Plan

/-! ## Lines that name a placeholder -/

namespace Text

/-- The line is `content` and white space behind it, and `content` itself does not end in
white space. -/
def Trims (line content : List Char) : Prop :=
  ∃ blanks, line = content ++ blanks ∧ (∀ c ∈ blanks, isSpace c) ∧
    ∀ c ∈ content.getLast?, isSpace c = false

theorem trimEnd_eq_iff {line content : List Char} :
    trimEnd line = content ↔ Trims line content := by
  have hsplit : line = (line.reverse.dropWhile isSpace).reverse ++
      (line.reverse.takeWhile isSpace).reverse := by
    rw [← List.reverse_append, List.takeWhile_append_dropWhile, List.reverse_reverse]
  constructor
  · rintro rfl
    refine ⟨_, hsplit, ?_, ?_⟩
    · intro c hc
      exact List.mem_takeWhile_imp (List.mem_reverse.mp hc)
    · intro c hc
      rw [trimEnd, List.getLast?_reverse] at hc
      have hnot := List.head?_dropWhile_not isSpace line.reverse
      rw [Option.mem_def.mp hc] at hnot
      simpa using hnot
  · rintro ⟨blanks, rfl, hblank, hlast⟩
    have hpass : ∀ c ∈ blanks.reverse, isSpace c := fun c hc => hblank c (List.mem_reverse.mp hc)
    have hstop : content.reverse.dropWhile isSpace = content.reverse := by
      cases hcontent : content.reverse with
      | nil => rfl
      | cons c front =>
        have hc : isSpace c = false := hlast c (by simp [← List.head?_reverse, hcontent])
        simp [hc]
    rw [trimEnd, List.reverse_append, List.dropWhile_append_of_pos hpass, hstop,
      List.reverse_reverse]

end Text

namespace Plan

/-- A plan lists the names that segments are registered under. -/
theorem mem_names_ofList {segments : List Segment} {name : String} :
    name ∈ (ofList segments).names ↔ ∃ s ∈ segments, s.placeholder.name = name := by
  simp only [← any_segments_iff, segments_ofList, List.any_eq_true,
    (arrange_perm _ segments).mem_iff, beq_iff_eq]

/-- A text names a placeholder if that is what its first line consists of, white space at
the end apart, and segments are registered under the name. -/
theorem placeholderAt?_ofList {segments : List Segment} {text : List Char} {name : String} :
    (ofList segments).placeholderAt? text = some name ↔
      name ≠ "" ∧ (∃ s ∈ segments, s.placeholder.name = name) ∧
        ∃ line rest, text = line ++ rest ∧ '\n' ∉ line ∧ Text.EndsLine rest ∧
          Text.Trims line name.toList := by
  have hcontent : (∃ line rest, text = line ++ rest ∧ '\n' ∉ line ∧ Text.EndsLine rest ∧
      Text.Trims line name.toList) ↔
        String.ofList (Text.trimEnd (Text.firstLine text)) = name := by
    rw [← String.toList_inj, String.toList_ofList, Text.trimEnd_eq_iff]
    constructor
    · rintro ⟨line, rest, htext, hline, hrest, htrims⟩
      rwa [Text.firstLine_eq_iff.mpr ⟨rest, htext, hline, hrest⟩]
    · intro htrims
      obtain ⟨rest, htext, hline, hrest⟩ := Text.firstLine_eq_iff.mp (rfl : _ = Text.firstLine text)
      exact ⟨_, rest, htext, hline, hrest, htrims⟩
  rw [hcontent, ← mem_names_ofList, ← any_segments_iff, placeholderAt?_eq]
  constructor
  · intro h
    split at h
    · next hnamed =>
      cases h
      exact ⟨hnamed.1, hnamed.2, rfl⟩
    · cases h
  · rintro ⟨hne, hany, rfl⟩
    exact if_pos ⟨hne, hany⟩

end Plan

/-- A plan emits for every placeholder name just the segments registered under it, stably
sorted by scope and priority. A text names a placeholder if its first line, white space at
the end apart, is a name that is not empty and has segments registered under it. So a
placeholder that is named always has a segment to emit. On the way nothing is lost or
repeated: the groups hold the registered segments, one group for each placeholder, and the
names that lines are compared with are those registered, each once and the longest first. -/
theorem plan_sorts_segments_stably (segments : List Segment) :
    let plan := Plan.ofList segments
    (∀ name, plan.segmentsFor name =
      (segments.filter (·.placeholder.name == name)).mergeSort fun s t => s.turn ≤ t.turn) ∧
    (∀ text name, plan.placeholderAt? text = some name ↔
      name ≠ "" ∧ (∃ s ∈ segments, s.placeholder.name = name) ∧
        ∃ line rest, text = line ++ rest ∧ '\n' ∉ line ∧ Text.EndsLine rest ∧
          Text.Trims line name.toList) ∧
    (∀ text name, plan.placeholderAt? text = some name → plan.segmentsFor name ≠ []) ∧
    plan.segments.Perm segments ∧
    (plan.groups.Pairwise fun g g' => g.placeholder.Before g'.placeholder) ∧
    (∀ name, name ∈ plan.names ↔ ∃ s ∈ segments, s.placeholder.name = name) ∧
    plan.names.Pairwise Plan.TriedBefore := by
  intro plan
  have hgroups : Plan.Ascending plan.groups := Plan.ascending_gather _
  refine ⟨Plan.segmentsFor_ofList segments, fun text name => Plan.placeholderAt?_ofList, ?_, ?_,
    hgroups.imp Placeholder.before_iff.mpr, fun name => Plan.mem_names_ofList,
    Plan.pairwise_nameList hgroups⟩
  · intro text name hnamed
    obtain ⟨-, ⟨s, hs, hname⟩, -⟩ := Plan.placeholderAt?_ofList.mp hnamed
    apply List.ne_nil_of_mem (a := s)
    rw [Plan.segmentsFor_ofList, List.mem_mergeSort]
    exact List.mem_filter.mpr ⟨hs, by simpa using hname⟩
  · rw [Plan.segments_ofList]
    exact Plan.arrange_perm _ segments

end ShaderWeave
