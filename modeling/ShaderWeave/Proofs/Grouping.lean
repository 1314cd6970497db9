import Mathlib.Data.Prod.Lex
import Mathlib.Data.String.Basic
import ShaderWeave.Segment.Plan

/-!
# Groups and names of a plan

The segments of a plan are sorted before they are entered into the map from placeholders to
segments. In the order of their ranks the segments of one placeholder stand together, and
each placeholder comes behind all that the map holds already. So every segment is entered at
the end, and the groups, one after the other, are the sorted segments again.

The keys of the map are in order, so placeholders of one name are neighbours, and dropping
names that stand right behind an equal one leaves each name once.

## Main definitions

- `Placeholder.rank`, `Segment.rank`: what decides the place of a placeholder, and of a
  segment, in a plan.
- `Plan.Ascending`: the keys of a map are in order.

## Main results

- `Plan.pairwise_arrange`: the sort puts the elements in the order of their ranks.
- `Plan.filter_arrange`: elements of one rank stay in their order.
- `Plan.segments_ofList`: the groups of a plan, one after the other, are the sorted segments.
- `Plan.pairwise_nameList`: the names are tried longest first, and none is repeated.
-/

namespace ShaderWeave

/-- What decides the place of a placeholder: its name, then its scope. -/
def Placeholder.rank (p : Placeholder) : String ×ₗ String :=
  toLex (p.name, p.scope)

theorem Placeholder.before_iff {p q : Placeholder} : p.Before q ↔ p.rank < q.rank := by
  simp only [Before, rank, Prod.Lex.toLex_lt_toLex]

theorem Placeholder.rank_inj {p q : Placeholder} : p.rank = q.rank ↔ p = q := by
  obtain ⟨name, scope⟩ := p
  obtain ⟨name', scope'⟩ := q
  simp [rank]

namespace Segment

variable {s t : Segment}

/-- What decides the place of a segment in a plan, the weightiest part first. -/
def rank (s : Segment) : String ×ₗ String ×ₗ Nat :=
  toLex (s.placeholder.name, toLex (s.placeholder.scope, s.priority))

theorem before_iff (s t : Segment) : s.Before t ↔ s.rank < t.rank := by
  obtain ⟨⟨name, scope⟩, _, _, priority⟩ := s
  obtain ⟨⟨name', scope'⟩, _, _, priority'⟩ := t
  simp only [Before, Placeholder.Before, rank, Prod.Lex.toLex_lt_toLex, Placeholder.mk.injEq]
  tauto

/-- Segments in order have their placeholders in order. -/
theorem rank_placeholder_le (h : s.rank ≤ t.rank) : s.placeholder.rank ≤ t.placeholder.rank := by
  simp only [rank, Placeholder.rank, Prod.Lex.toLex_le_toLex] at h ⊢
  exact h.imp_right fun h => ⟨h.1, h.2.elim le_of_lt fun h => h.1.le⟩

theorem rank_eq_iff :
    s.rank = t.rank ↔ s.placeholder = t.placeholder ∧ s.priority = t.priority := by
  obtain ⟨⟨name, scope⟩, _, _, priority⟩ := s
  obtain ⟨⟨name', scope'⟩, _, _, priority'⟩ := t
  simp [rank, and_assoc]

theorem rank_surjective : Function.Surjective rank := fun r =>
  ⟨{ placeholder := ⟨(ofLex r).1, (ofLex (ofLex r).2).1⟩, name := "", snippet := "",
     priority := (ofLex (ofLex r).2).2 }, rfl⟩

end Segment

namespace Plan

/-! ## The sort -/

section Sorting

variable {α β : Type} [LinearOrder β] {before : α → α → Prop} [DecidableRel before] {rank : α → β}
  (hbefore : ∀ x y, before x y ↔ rank x < rank y)

include hbefore

theorem pairwise_place {ys : List α} (h : ys.Pairwise (rank · ≤ rank ·)) (x : α) :
    (place before x ys).Pairwise (rank · ≤ rank ·) := by
  induction ys with
  | nil => exact List.pairwise_singleton _ _
  | cons y ys ih =>
    obtain ⟨hhead, htail⟩ := List.pairwise_cons.mp h
    unfold place
    split
    · next hfirst =>
      refine List.pairwise_cons.mpr ⟨fun z hz => ?_, ih htail⟩
      rcases List.mem_cons.mp ((place_perm before x ys).mem_iff.mp hz) with rfl | hz
      · exact ((hbefore _ _).mp hfirst).le
      · exact hhead z hz
    · next hfirst =>
      have hle : rank x ≤ rank y := not_lt.mp (mt (hbefore _ _).mpr hfirst)
      refine List.pairwise_cons.mpr ⟨fun z hz => ?_, h⟩
      rcases List.mem_cons.mp hz with rfl | hz
      · exact hle
      · exact hle.trans (hhead z hz)

/-- The sort puts the elements in the order of their ranks. -/
theorem pairwise_arrange (xs : List α) : (arrange before xs).Pairwise (rank · ≤ rank ·) := by
  induction xs with
  | nil => exact List.Pairwise.nil
  | cons x xs ih => exact pairwise_place hbefore ih x

theorem filter_place (x : α) (ys : List α) (r : β) :
    (place before x ys).filter (rank · = r) = (x :: ys).filter (rank · = r) := by
  induction ys with
  | nil => rfl
  | cons y ys ih =>
    unfold place
    split
    · next hfirst =>
      -- the elements have different ranks, so at most one of them is looked for
      have hne : rank y ≠ rank x := ((hbefore _ _).mp hfirst).ne
      rw [List.filter_cons, ih]
      by_cases hx : rank x = r
      · have hy : rank y ≠ r := hx ▸ hne
        simp [hx, hy]
      · simp [hx, List.filter_cons]
    · rfl

/-- Elements of one rank stay in their order. -/
theorem filter_arrange (xs : List α) (r : β) :
    (arrange before xs).filter (rank · = r) = xs.filter (rank · = r) := by
  induction xs with
  | nil => rfl
  | cons x xs ih =>
    rw [arrange, filter_place hbefore, List.filter_cons, List.filter_cons, ih]

end Sorting

/-! ## Keys of the map -/

/-- The placeholders of the groups are in order, and none is repeated. -/
def Ascending (gs : List Group) : Prop :=
  gs.Pairwise fun g g' => g.placeholder.rank < g'.placeholder.rank

variable {s : Segment} {gs : List Group}

/-- Entering a segment adds no key but its placeholder. -/
theorem placeholder_of_mem_enter {g : Group} (h : g ∈ enter s gs) :
    g.placeholder = s.placeholder ∨ ∃ g' ∈ gs, g.placeholder = g'.placeholder := by
  fun_induction enter s gs with
  | case1 =>
    rw [List.mem_singleton.mp h]
    exact .inl rfl
  | case2 first others hequal =>
    rcases List.mem_cons.mp h with rfl | h
    · exact .inl hequal.symm
    · exact .inr ⟨g, List.mem_cons_of_mem _ h, rfl⟩
  | case3 first others _ _ =>
    rcases List.mem_cons.mp h with rfl | h
    · exact .inl rfl
    · exact .inr ⟨g, h, rfl⟩
  | case4 first others _ _ ih =>
    rcases List.mem_cons.mp h with rfl | h
    · exact .inr ⟨g, List.mem_cons_self, rfl⟩
    · exact (ih h).imp_right fun ⟨g', hg', heq⟩ => ⟨g', List.mem_cons_of_mem _ hg', heq⟩

/-- Entering a segment keeps the keys in order. -/
theorem Ascending.enter (h : Ascending gs) (s : Segment) : Ascending (enter s gs) := by
  fun_induction Plan.enter s gs with
  | case1 => exact List.pairwise_singleton _ _
  | case2 first others hequal => exact List.pairwise_cons.mpr (List.pairwise_cons.mp h)
  | case3 first others _ hbefore =>
    have hlt : s.placeholder.rank < first.placeholder.rank := Placeholder.before_iff.mp hbefore
    refine List.pairwise_cons.mpr ⟨fun g hg => ?_, h⟩
    rcases List.mem_cons.mp hg with rfl | hg
    · exact hlt
    · exact hlt.trans ((List.pairwise_cons.mp h).1 g hg)
  | case4 first others hdifferent hbehind ih =>
    have hlt : first.placeholder.rank < s.placeholder.rank :=
      lt_of_le_of_ne (not_lt.mp (mt Placeholder.before_iff.mpr hbehind))
        fun heq => hdifferent (Placeholder.rank_inj.mp heq).symm
    obtain ⟨hhead, htail⟩ := List.pairwise_cons.mp h
    refine List.pairwise_cons.mpr ⟨fun g hg => ?_, ih htail⟩
    rcases placeholder_of_mem_enter hg with heq | ⟨g', hg', heq⟩
    · rwa [heq]
    · rw [heq]
      exact hhead g' hg'

theorem ascending_gather (ss : List Segment) : Ascending (gather ss) :=
  List.foldlRecOn ss _ List.Pairwise.nil fun _ h s _ => h.enter s

/-! ## Sorted segments -/

/-- A segment whose placeholder comes behind no key or at the last one goes to the end. -/
theorem flatMap_enter (h : Ascending gs)
    (hlast : ∀ g ∈ gs, g.placeholder.rank ≤ s.placeholder.rank) :
    (enter s gs).flatMap (·.segments) = gs.flatMap (·.segments) ++ [s] := by
  fun_induction enter s gs with
  | case1 => rfl
  | case2 first others hequal =>
    have hothers : others = [] := by
      rw [List.eq_nil_iff_forall_not_mem]
      intro g hg
      have hlt := (List.pairwise_cons.mp h).1 g hg
      rw [← hequal] at hlt
      exact absurd (hlast g (List.mem_cons_of_mem _ hg)) (not_le.mpr hlt)
    rw [hothers]
    simp [Group.push]
  | case3 first others _ hbefore =>
    exact absurd (hlast first List.mem_cons_self) (not_le.mpr (Placeholder.before_iff.mp hbefore))
  | case4 first others _ _ ih =>
    rw [List.flatMap_cons, List.flatMap_cons,
      ih (List.pairwise_cons.mp h).2 fun g hg => hlast g (List.mem_cons_of_mem _ hg),
      List.append_assoc]

theorem flatMap_foldl_enter {ss : List Segment} (hgs : Ascending gs)
    (hss : ss.Pairwise (·.placeholder.rank ≤ ·.placeholder.rank))
    (hlast : ∀ g ∈ gs, ∀ s ∈ ss, g.placeholder.rank ≤ s.placeholder.rank) :
    (ss.foldl (fun gs s => enter s gs) gs).flatMap (·.segments) =
      gs.flatMap (·.segments) ++ ss := by
  induction ss generalizing gs with
  | nil => simp
  | cons s ss ih =>
    obtain ⟨hhead, htail⟩ := List.pairwise_cons.mp hss
    rw [List.foldl_cons, ih (hgs.enter s) htail ?_,
      flatMap_enter hgs fun g hg => hlast g hg s List.mem_cons_self, List.append_assoc]
    · rfl
    · intro g hg t ht
      rcases placeholder_of_mem_enter hg with heq | ⟨g', hg', heq⟩
      · rw [heq]
        exact hhead t ht
      · rw [heq]
        exact hlast g' hg' t (List.mem_cons_of_mem _ ht)

/-- The groups of a plan, one after the other, are the sorted segments. -/
theorem segments_ofList (ss : List Segment) :
    (ofList ss).segments = arrange Segment.Before ss := by
  have hsorted := (pairwise_arrange Segment.before_iff ss).imp Segment.rank_placeholder_le
  exact flatMap_foldl_enter List.Pairwise.nil hsorted fun g hg => absurd hg List.not_mem_nil

/-! ## Names -/

/-- What decides when a name is tried: its length, the longest first, and then the name. -/
def trial (name : String) : Natᵒᵈ ×ₗ String :=
  toLex (OrderDual.toDual name.utf8ByteSize, name)

theorem triedBefore_iff (name name' : String) :
    TriedBefore name name' ↔ trial name < trial name' := by
  simp [TriedBefore, trial, Prod.Lex.toLex_lt_toLex]

theorem trial_injective : Function.Injective trial := by
  intro name name' h
  simpa [trial] using congrArg (fun r => (ofLex r).2) h

/-- Of names in order, dropping those right behind an equal one leaves each just once. -/
theorem pairwise_collapse {names : List String} (h : names.Pairwise (· ≤ ·)) :
    (collapse names).Pairwise (· < ·) := by
  induction names with
  | nil => exact List.Pairwise.nil
  | cons name names ih =>
    obtain ⟨hhead, htail⟩ := List.pairwise_cons.mp h
    unfold collapse
    split
    · exact ih htail
    · next hnew =>
      refine List.pairwise_cons.mpr ⟨fun other hother => ?_, ih htail⟩
      rw [mem_collapse] at hother
      cases names with
      | nil => cases hother
      | cons next names =>
        have hlt : name < next :=
          lt_of_le_of_ne (hhead next List.mem_cons_self) fun heq => hnew (by rw [heq]; rfl)
        rcases List.mem_cons.mp hother with rfl | hother
        · exact hlt
        · exact hlt.trans_le ((List.pairwise_cons.mp htail).1 other hother)

/-- The names are tried longest first, and none is repeated. -/
theorem pairwise_nameList (h : Ascending gs) : (nameList gs).Pairwise TriedBefore := by
  have hnames : (gs.map (·.placeholder.name)).Pairwise (· ≤ ·) := by
    refine List.pairwise_map.mpr (h.imp fun hlt => ?_)
    rcases Prod.Lex.toLex_lt_toLex.mp hlt with hlt | ⟨heq, -⟩
    · exact hlt.le
    · exact heq.le
  have hnodup : (nameList gs).Nodup :=
    (arrange_perm _ _).nodup_iff.mpr ((pairwise_collapse hnames).imp ne_of_lt)
  have hsorted := pairwise_arrange triedBefore_iff (collapse (gs.map (·.placeholder.name)))
  refine (hsorted.and hnodup).imp fun ⟨hle, hne⟩ => ?_
  exact (triedBefore_iff _ _).mpr (lt_of_le_of_ne hle (mt (trial_injective ·) hne))

end Plan

end ShaderWeave
