import ShaderWeave.Proofs.Strand

/-!
# Who owns an output line

Every output line of a visit gets its origin while the visit deals with one of
its lines, either from that line itself or from a visit that the line leads to.
Following the visits down, every output line has an owner, and it has one only.

## Main definitions

- `Visit.Passes`: the sheets on which a visit begins and leaves a line.

## Main results

- `Visit.Runs.exists_owner`, `Visit.Runs.owner_unique`: every output line of a
  run has exactly one owner.
- `Visit.Runs.produces_lt`: later lines produce later output lines.
- `Weaver.runs_of_weave`: a pass that succeeds is a run from an empty sheet.
-/

namespace ShaderWeave

variable {σ : Type} {w : Weaver σ}

namespace Visit

variable {u v : Visit σ} {i j j' : Nat} {p q q' : Pass σ} {a a' b b' s t : Sheet}

/-- The visit begins line `j` on the sheet `a` and leaves it on the sheet `b`. -/
structure Passes (v : Visit σ) (w : Weaver σ) (j : Nat) (q : Pass σ) (a b : Sheet) : Prop where
  begun : v.AtLine w j q a
  deals : v.Deals w j q a b
  left : ∃ q', v.Leaves w j q' ∧ b.output = q'.output

theorem AtLine.unique (h : v.AtLine w j q a) (h' : v.AtLine w j q' a') : q = q' ∧ a = a' := by
  obtain rfl := h.begins.unique h'.begins
  exact ⟨rfl, Sheet.output_injective (h.output.trans h'.output.symm)⟩

theorem Passes.unique (h : v.Passes w j q a b) (h' : v.Passes w j q' a' b') :
    q = q' ∧ a = a' ∧ b = b' := by
  obtain ⟨rfl, rfl⟩ := h.begun.unique h'.begun
  obtain ⟨p, hleaves, hb⟩ := h.left
  obtain ⟨p', hleaves', hb'⟩ := h'.left
  obtain rfl := hleaves.unique hleaves'
  exact ⟨rfl, rfl, Sheet.output_injective (hb.trans hb'.symm)⟩

/-- Output lines between the sheets of a line are those that the line produces. -/
theorem Passes.produces_iff (h : v.Passes w j q a b) :
    v.Produces w j i ↔ a.settled.length ≤ i ∧ i < b.settled.length := by
  obtain ⟨p, hleaves, hb⟩ := h.left
  rw [← a.size_origins, ← b.size_origins, h.begun.output, hb]
  constructor
  · rintro ⟨q₁, p₁, hbegins₁, hleaves₁, hle, hlt⟩
    obtain rfl := h.begun.begins.unique hbegins₁
    obtain rfl := hleaves.unique hleaves₁
    exact ⟨hle, hlt⟩
  · rintro ⟨hle, hlt⟩
    exact ⟨q, p, h.begun.begins, hleaves, hle, hlt⟩

theorem Deals.within (h : v.Deals w j q a b) (hu : v.Enters w j u) : u.Within w a b := by
  rcases h.rows with ⟨line, content, _, _, hnone, _⟩ | ⟨_, hfills⟩
  · exact absurd hu (hnone u)
  · exact hfills.within u hu

theorem Deals.apart {u' : Visit σ} (h : v.Deals w j q a b) (hu : v.Enters w j u)
    (hu' : v.Enters w j u') (hi : u.Yields w i) (hi' : u'.Yields w i) : u = u' := by
  rcases h.rows with ⟨line, content, _, _, hnone, _⟩ | ⟨_, hfills⟩
  · exact absurd hu (hnone u)
  · exact hfills.apart u u' i hu hu' hi hi'

/-! ## The lines of a run -/

/-- Each line is left on the sheet on which the next one begins. -/
theorem AtLine.exists_passes_next (h : v.AtLine w j q a) (hends : v.Ends w p)
    (hlt : j + 1 < (Text.lines v.text).length) :
    ∃ q' b, v.AtLine w (j + 1) q' b ∧ v.Passes w j q a b := by
  obtain ⟨q', b, hnext, hdeals⟩ := h.next (fun u _ => u.sound w) hends hlt
  refine ⟨q', b, hnext, h, hdeals, q', ?_, hnext.output⟩
  rw [Leaves, if_pos hlt]
  exact hnext.begins

theorem AtLine.exists_passes_last (h : v.AtLine w j q a) (hends : v.Ends w p)
    (hlast : j + 1 = (Text.lines v.text).length) :
    ∃ b : Sheet, b.output = p.output ∧ v.Passes w j q a b := by
  obtain ⟨b, houtput, _, _, hdeals⟩ := h.last (fun u _ => u.sound w) hends hlast
  refine ⟨b, houtput, h, hdeals, p, ?_, houtput⟩
  rw [Leaves, if_neg (by omega)]
  exact hends

theorem AtLine.exists_later (h : v.AtLine w j q a) (hends : v.Ends w p) (hle : j ≤ j')
    (hj' : j' < (Text.lines v.text).length) :
    ∃ q' a', v.AtLine w j' q' a' ∧ a.settled <+: a'.settled := by
  induction j', hle using Nat.le_induction with
  | base => exact ⟨q, a, h, List.prefix_refl _⟩
  | succ k hle ih =>
    obtain ⟨q₁, a₁, hat, hpre⟩ := ih (by omega)
    obtain ⟨q', a', hnext, hpasses⟩ := hat.exists_passes_next hends hj'
    exact ⟨q', a', hnext, hpre.trans hpasses.deals.grows.settled_prefix⟩

/-- Every line of a run is dealt with, and what it settles is settled for good. -/
theorem Runs.exists_passes (h : v.Runs w s t) (hj : j < (Text.lines v.text).length) :
    ∃ q a b, v.Passes w j q a b ∧ s.settled <+: a.settled ∧ b.settled <+: t.settled := by
  obtain ⟨p, hends, hp⟩ := h.ends
  obtain ⟨q, a, hat, hpre⟩ := (atLine_zero h.start h.fresh).exists_later hends (Nat.zero_le j) hj
  by_cases hlt : j + 1 < (Text.lines v.text).length
  · obtain ⟨q', b, hnext, hpasses⟩ := hat.exists_passes_next hends hlt
    obtain ⟨t', ht', _, hgrows⟩ := hnext.grows (fun u _ => u.sound w) hends hlt
    obtain rfl : t' = t := Sheet.output_injective (ht'.trans hp.symm)
    exact ⟨q, a, b, hpasses, hpre, hgrows.settled_prefix⟩
  · obtain ⟨b, hb, hpasses⟩ := hat.exists_passes_last hends (by omega)
    obtain rfl : b = t := Sheet.output_injective (hb.trans hp.symm)
    exact ⟨q, a, b, hpasses, hpre, List.prefix_refl _⟩

theorem Produces.lt_length (h : v.Produces w j i) : j < (Text.lines v.text).length := by
  obtain ⟨q, _, hbegins, _⟩ := h
  exact hbegins.lt_length

/-- Later lines produce later output lines. -/
theorem Runs.produces_lt (h : v.Runs w s t) {i' : Nat} (hi : v.Produces w j i)
    (hi' : v.Produces w j' i') (hlt : j < j') : i < i' := by
  obtain ⟨p, hends, _⟩ := h.ends
  have hj' := hi'.lt_length
  obtain ⟨q, a, b, hpasses, _, _⟩ := h.exists_passes hi.lt_length
  obtain ⟨q', a', b', hpasses', _, _⟩ := h.exists_passes hj'
  -- the sheet on which line `j` is left comes before the one on which line `j'` begins
  obtain ⟨q₁, b₁, hnext, hpasses₁⟩ := hpasses.begun.exists_passes_next hends (by omega)
  obtain ⟨-, -, rfl⟩ := hpasses.unique hpasses₁
  obtain ⟨q₂, a₂, hlater, hpre⟩ := hnext.exists_later hends hlt hj'
  obtain ⟨-, rfl⟩ := hlater.unique hpasses'.begun
  have hle := hpre.length_le
  have hbefore := (hpasses.produces_iff.mp hi).2
  have hbehind := (hpasses'.produces_iff.mp hi').1
  omega

theorem Runs.produces_unique (h : v.Runs w s t) (hi : v.Produces w j i)
    (hi' : v.Produces w j' i) : j = j' := by
  rcases Nat.lt_trichotomy j j' with hlt | heq | hlt
  · exact absurd (h.produces_lt hi hi' hlt) (Nat.lt_irrefl i)
  · exact heq
  · exact absurd (h.produces_lt hi' hi hlt) (Nat.lt_irrefl i)

theorem Runs.yields_of_produces (h : v.Runs w s t) (hi : v.Produces w j i) : v.Yields w i := by
  obtain ⟨q, a, b, hpasses, hs, ht⟩ := h.exists_passes hi.lt_length
  have hs := hs.length_le
  have ht := ht.length_le
  have hi := hpasses.produces_iff.mp hi
  exact h.yields_iff.mpr (by omega)

theorem Runs.produces_of_yields (h : v.Runs w s t) (hu : v.Enters w j u) (hi : u.Yields w i) :
    v.Produces w j i := by
  obtain ⟨q, a, b, hpasses, _, _⟩ := h.exists_passes hu.lt_length
  exact hpasses.produces_iff.mpr ((hpasses.deals.within hu).of_yields hi)

/-- Behind the start of a line, every output line is produced by that line or by
a later one. -/
theorem AtLine.exists_produces (h : v.AtLine w j q a) (hends : v.Ends w p)
    (hj : j < (Text.lines v.text).length) (hle : a.settled.length ≤ i)
    (hlt : i < p.output.origins.size) : ∃ j', v.Produces w j' i := by
  -- induction on the number of lines behind this one
  induction hn : (Text.lines v.text).length - (j + 1) generalizing j q a with
  | zero =>
    obtain ⟨b, hb, hpasses⟩ := h.exists_passes_last hends (by omega)
    rw [← hb, b.size_origins] at hlt
    exact ⟨j, hpasses.produces_iff.mpr ⟨hle, hlt⟩⟩
  | succ n ih =>
    obtain ⟨q', b, hnext, hpasses⟩ := h.exists_passes_next hends (by omega)
    by_cases hib : i < b.settled.length
    · exact ⟨j, hpasses.produces_iff.mpr ⟨hle, hib⟩⟩
    · exact ih hnext (by omega) (by omega) (by omega)

theorem Runs.exists_produces (h : v.Runs w s t) (hi : v.Yields w i) :
    ∃ j, v.Produces w j i := by
  obtain ⟨p, hends, hp⟩ := h.ends
  have hpos : 0 < (Text.lines v.text).length := List.length_pos_iff.mpr (Text.lines_ne_nil v.text)
  obtain ⟨hle, hlt⟩ := h.yields_iff.mp hi
  rw [← t.size_origins, hp] at hlt
  exact (atLine_zero h.start h.fresh).exists_produces hends hpos hle hlt

/-- A line that owns an output line leaves it as a row behind what stands there
when the line begins. -/
theorem Within.exists_row (h : v.Within w s t) (hi : v.Owns w j i) :
    ∃ q a line content, v.AtLine w j q a ∧ (Text.lines v.text)[j]? = some line ∧
      v.Retains w j q line content ∧ (∀ u, ¬ v.Enters w j u) ∧
      t.settled[i]? = some ⟨a.tail ++ content, ⟨v.unit.key, j + 1⟩⟩ := by
  obtain ⟨s', t', hruns, _, ht⟩ := h
  obtain ⟨q, a, b, hpasses, _, hb⟩ := hruns.exists_passes hi.1.lt_length
  obtain ⟨hle, hlt⟩ := hpasses.produces_iff.mp hi.1
  rcases hpasses.deals.rows with ⟨line, content, hline, hretains, hnone, hrows⟩ | ⟨_, hfills⟩
  · refine ⟨q, a, line, content, hpasses.begun, hline, hretains, hnone, ?_⟩
    apply Sheet.settled_getElem?_of_prefix (hb.trans ht)
    split at hrows
    · rw [hrows, List.append_nil] at hlt
      omega
    · rw [hrows, List.length_append, List.length_singleton] at hlt
      obtain rfl : i = a.settled.length := by omega
      rw [hrows, List.getElem?_concat_length]
  · obtain ⟨u, hu, hyields⟩ := hfills.covers i hle hlt
    exact absurd hyields (hi.2 u hu)

/-! ## Following the visits down -/

theorem Runs.within (h : v.Runs w s t) (hu : v.Enters w j u) : u.Within w s t := by
  obtain ⟨q, a, b, hpasses, hs, ht⟩ := h.exists_passes hu.lt_length
  obtain ⟨s', t', hruns, hs', ht'⟩ := hpasses.deals.within hu
  exact ⟨s', t', hruns, hs.trans hs', ht'.trans ht⟩

theorem Runs.within_of_visited (h : v.Runs w s t) (hu : w.Visited v u) : u.Within w s t := by
  induction hu with
  | refl => exact ⟨s, t, h, List.prefix_refl _, List.prefix_refl _⟩
  | tail _ henters ih =>
    obtain ⟨j, henters⟩ := henters
    obtain ⟨s', t', hruns, hs, ht⟩ := ih
    obtain ⟨s'', t'', hruns', hs', ht'⟩ := hruns.within henters
    exact ⟨s'', t'', hruns', hs.trans hs', ht'.trans ht⟩

/-- Every output line of a run has an owner. -/
theorem Runs.exists_owner (h : v.Runs w s t) (hi : v.Yields w i) :
    ∃ u j, w.Visited v u ∧ u.Owns w j i := by
  induction hroom : v.room using Nat.strong_induction_on generalizing v s t with
  | _ room ih =>
    obtain ⟨j, hj⟩ := h.exists_produces hi
    -- go down into the visit that yields the line, as long as there is one
    by_cases hdown : ∃ u, v.Enters w j u ∧ u.Yields w i
    · obtain ⟨u, henters, hyields⟩ := hdown
      obtain ⟨s', t', hruns, _, _⟩ := h.within henters
      obtain ⟨u', j', hvisited, howns⟩ := ih u.room (hroom ▸ henters.room_lt) hruns hyields rfl
      exact ⟨u', j', hvisited.head ⟨j, henters⟩, howns⟩
    · exact ⟨v, j, .refl, hj, fun u hu hyields => hdown ⟨u, hu, hyields⟩⟩

theorem Runs.yields_of_owns (h : v.Runs w s t) (hu : w.Visited v u) (hi : u.Owns w j i) :
    v.Yields w i := by
  obtain ⟨s', t', hruns, hs, ht⟩ := h.within_of_visited hu
  have hyields := hruns.yields_of_produces hi.1
  exact h.yields_iff.mpr (Within.of_yields ⟨s', t', hruns, hs, ht⟩ hyields)

/-- A visit that owns an output line is the only one below it to do so. -/
theorem Runs.eq_of_owns (h : v.Runs w s t) (hv : v.Owns w j i) (hu : w.Visited v u)
    (hi : u.Owns w j' i) : u = v ∧ j' = j := by
  rcases hu.cases_head with rfl | ⟨x, ⟨k, hx⟩, hu⟩
  · exact ⟨rfl, h.produces_unique hi.1 hv.1⟩
  · obtain ⟨s', t', hruns, _, _⟩ := h.within hx
    have hyields := hruns.yields_of_owns hu hi
    obtain rfl := h.produces_unique (h.produces_of_yields hx hyields) hv.1
    exact absurd hyields (hv.2 x hx)

/-- An output line of a run has one owner only. -/
theorem Runs.owner_unique {u' : Visit σ} (h : v.Runs w s t) (hu : w.Visited v u)
    (hu' : w.Visited v u') (hi : u.Owns w j i) (hi' : u'.Owns w j' i) : u = u' ∧ j = j' := by
  induction hu using Relation.ReflTransGen.head_induction_on generalizing s t with
  | refl =>
    obtain ⟨hvisit, hline⟩ := h.eq_of_owns hi hu' hi'
    exact ⟨hvisit.symm, hline.symm⟩
  | head henters hdown ih =>
    rcases hu'.cases_head with rfl | ⟨x', ⟨k', hx'⟩, hu'⟩
    · exact h.eq_of_owns hi' (.head henters hdown) hi
    · -- both owners are reached through the line that produces the output line, so they are
      -- reached through one visit
      obtain ⟨k, hx⟩ := henters
      obtain ⟨s₁, t₁, hruns, _, _⟩ := h.within hx
      obtain ⟨s₂, t₂, hruns', _, _⟩ := h.within hx'
      have hyields := hruns.yields_of_owns hdown hi
      have hyields' := hruns'.yields_of_owns hu' hi'
      obtain rfl := h.produces_unique (h.produces_of_yields hx hyields)
        (h.produces_of_yields hx' hyields')
      obtain ⟨q, a, b, hpasses, _, _⟩ := h.exists_passes hx.lt_length
      obtain rfl := hpasses.deals.apart hx hx' hyields hyields'
      exact ih hruns hu'

end Visit

namespace Weaver

variable {unit : SourceUnit} {stock : σ} {output : Output} {pass : Pass σ}

theorem weave_eq_ok (h : w.weave unit stock = .ok output pass) :
    ∃ p, (w.root unit stock).Ends w p ∧ output = p.output ∧ pass.exchanges = p.exchanges := by
  obtain ⟨_, p, hends, h⟩ := WeaveM.run_bind_eq_ok.mp h
  cases h
  exact ⟨p, hends, rfl, rfl⟩

/-- A pass that succeeds is a run from an empty sheet. -/
theorem runs_of_weave (h : w.weave unit stock = .ok output pass) :
    ∃ t : Sheet, t.output = output ∧ (w.root unit stock).Runs w {} t := by
  obtain ⟨p, hends, rfl, _⟩ := weave_eq_ok h
  have hfresh : ({} : Sheet).Fresh := Sheet.fresh_of_tail_eq_nil rfl
  obtain ⟨t, hruns⟩ := (w.root unit stock).sound w {} p rfl hfresh hends
  obtain ⟨p', hends', ht⟩ := hruns.ends
  obtain rfl := hends.unique hends'
  exact ⟨t, ht, hruns⟩

end Weaver

end ShaderWeave
