import ShaderWeave.Proofs.Origin

/-!
# Nothing is lost, repeated or moved

Every visit leaves its plain lines on the output, each on one line that no other
line of any visit shares, in the order in which they stand in the unit. What
comes of a directive stands in the place of the directive.

## Main results

- `Visit.Runs.existsUnique_owns`: a plain line owns one output line.
- `plain_lines_in_order`: the whole statement for a pass that succeeds.
-/

namespace ShaderWeave

variable {σ : Type} {w : Weaver σ}

namespace Visit

variable {v : Visit σ} {j : Nat} {s t : Sheet} {line content : List Char} {q : Pass σ}

theorem Retains.eq_of_plain (h : v.Retains w j q line content)
    (hplain : Line.directiveAt? w.plan v.text j = none) : content = line := by
  rcases h with ⟨_, hcontent⟩ | ⟨path, hdirective, _⟩
  · exact hcontent
  · rw [hplain] at hdirective
    cases hdirective

/-- A plain line owns one output line, unless it is the empty end of the unit. -/
theorem Runs.existsUnique_owns (h : v.Runs w s t) (hline : (Text.lines v.text)[j]? = some line)
    (hplain : Line.directiveAt? w.plan v.text j = none)
    (hlast : j + 1 = (Text.lines v.text).length → line ≠ []) : ∃! i, v.Owns w j i := by
  have hj := (List.getElem?_eq_some_iff.mp hline).1
  obtain ⟨q, a, b, hpasses, _, _⟩ := h.exists_passes hj
  rcases hpasses.deals.rows with ⟨line', content, hline', hretains, hnone, hrows⟩ | ⟨hdirective, _⟩
  · rw [hline] at hline'
    cases hline'
    obtain rfl := hretains.eq_of_plain hplain
    have hkept : ¬ (j + 1 = (Text.lines v.text).length ∧ a.tail ++ content = []) := by
      rintro ⟨hend, hnil⟩
      exact hlast hend (List.append_eq_nil_iff.mp hnil).2
    rw [if_neg hkept] at hrows
    have hlength : b.settled.length = a.settled.length + 1 := by
      rw [hrows, List.length_append, List.length_singleton]
    have howns : v.Owns w j a.settled.length := by
      refine ⟨hpasses.produces_iff.mpr ⟨Nat.le_refl _, by omega⟩, ?_⟩
      intro u hu
      exact absurd hu (hnone u)
    refine ⟨a.settled.length, howns, ?_⟩
    intro i hi
    have hbounds := hpasses.produces_iff.mp hi.1
    omega
  · exact absurd hplain hdirective

end Visit

/-- In a pass that succeeds every plain line of every visit owns exactly one
output line, whose origin names it and which no other line owns. The output lines
of a visit come in the order of its lines, and those of the visits that a line
leads to come between the ones of the lines before and after it. -/
theorem plain_lines_in_order {unit : SourceUnit} {stock : σ} {output : Output} {pass : Pass σ}
    {v : Visit σ} (h : w.weave unit stock = .ok output pass)
    (hv : w.Visited (w.root unit stock) v) :
    (∀ j line, (Text.lines v.text)[j]? = some line →
      Line.directiveAt? w.plan v.text j = none →
      (j + 1 = (Text.lines v.text).length → line ≠ []) → ∃! i, v.Owns w j i) ∧
    (∀ j i, v.Owns w j i → output.origin? i = some ⟨v.unit.key, j + 1⟩) ∧
    (∀ v' j j' i, w.Visited (w.root unit stock) v' → v.Owns w j i → v'.Owns w j' i →
      v = v' ∧ j = j') ∧
    (∀ j j' i i', v.Owns w j i → v.Owns w j' i' → j < j' → i < i') ∧
    ∀ k u m, v.Enters w k u → u.Yields w m →
      (∀ j i, v.Owns w j i → j < k → i < m) ∧ ∀ j i, v.Owns w j i → k < j → m < i := by
  obtain ⟨t, rfl, hroot⟩ := w.runs_of_weave h
  have hwithin := hroot.within_of_visited hv
  obtain ⟨s', t', hruns, _, _⟩ := hroot.within_of_visited hv
  refine ⟨?_, ?_, ?_, ?_, ?_⟩
  · intro j line hline hplain hlast
    exact hruns.existsUnique_owns hline hplain hlast
  · intro j i hi
    obtain ⟨_, _, _, _, _, _, _, _, hrow⟩ := hwithin.exists_row hi
    rw [t.origin?_output, hrow]
    rfl
  · intro v' j j' i hv' hi hi'
    exact hroot.owner_unique hv hv' hi hi'
  · intro j j' i i' hi hi' hlt
    exact hruns.produces_lt hi.1 hi'.1 hlt
  · intro k u m hu hm
    have hproduces := hruns.produces_of_yields hu hm
    constructor
    · intro j i hi hlt
      exact hruns.produces_lt hi.1 hproduces hlt
    · intro j i hi hlt
      exact hruns.produces_lt hproduces hi.1 hlt

/-- The fourth line of the sample is commented out, so it owns an output line. The
visit of the included unit keeps the order of its lines. -/
theorem plain_lines_in_order_sample : ∃ pass v,
    Sample.weaver.weave Sample.entry Sample.library = .ok Sample.woven pass ∧
    (∃! i, (Sample.weaver.root Sample.entry Sample.library).Owns Sample.weaver 3 i) ∧
    Sample.weaver.Visited (Sample.weaver.root Sample.entry Sample.library) v ∧
    v.unit.key = "noise" ∧ v.Owns Sample.weaver 0 1 ∧
    ∀ j i, v.Owns Sample.weaver j i → 0 < j → 1 < i := by
  obtain ⟨pass, h⟩ := Sample.weave_eq_ok
  obtain ⟨t, ht, hroot⟩ := Sample.weaver.runs_of_weave h
  have hyields : (Sample.weaver.root Sample.entry Sample.library).Yields Sample.weaver 1 := by
    rw [hroot.yields_iff, ← t.size_origins, ht]
    decide
  obtain ⟨v, j, hv, hi⟩ := hroot.exists_owner hyields
  obtain ⟨hplain, -⟩ := plain_lines_in_order h .refl
  obtain ⟨-, horigin, -, horder, -⟩ := plain_lines_in_order h hv
  have hnoise : Sample.woven.origin? 1 = some ⟨"noise", 1⟩ := by decide
  obtain ⟨hkey, hline⟩ := Location.mk.inj (Option.some.inj (hnoise.symm.trans (horigin j 1 hi)))
  obtain rfl : j = 0 := by omega
  refine ⟨pass, v, h, hplain 3 "/* #include \"noise\"".toList ?_ ?_ ?_, hv, hkey.symm, hi, ?_⟩
  · decide +kernel
  · decide +kernel
  · decide +kernel
  · intro j' i hi' hpos
    exact horder 0 j' 1 i hi hi' hpos

end ShaderWeave
