import ShaderWeave.Proofs.Origin
import ShaderWeave.Proofs.Verbatim

/-!
# Weaving an output again

No line of an output is a directive, and all block comments of an output end in
it. So an output that is woven again, with the same segments, stays as it is,
whatever the supplier and the limit.

## Main results

- `weave_output_again`: an output is woven as it stands.
-/

namespace ShaderWeave

variable {σ τ : Type}

/-- If all that has been begun is owned, then the lines of the output are its
rows, but for an empty line at the end. -/
theorem Sheet.quiet_lines_output {plan : Plan} {t : Sheet} (howned : t.Owned)
    (h : Line.quiet plan false (t.settled.map Row.content) = some false) :
    Line.quiet plan false (Text.lines t.output.text.toList) = some false := by
  rw [t.lines_output]
  cases howner : t.owner with
  | none =>
    have htail : t.tail = [] := by
      by_contra hne
      exact howned hne howner
    rw [t.settled_eq_rows howner] at h
    rw [htail, Line.quiet_append, h]
    rfl
  | some owner =>
    have hall : t.settled.map Row.content = t.rows.map Row.content ++ [t.tail] := by
      simp [settled, howner]
    rw [← hall]
    exact h

/-- The output of a pass that succeeds holds no directive and leaves no block
comment open. -/
theorem Weaver.quiet_of_weave {w : Weaver σ} {unit : SourceUnit} {stock : σ} {output : Output}
    {pass : Pass σ} (h : w.weave unit stock = .ok output pass) :
    Line.quiet w.plan false (Text.lines output.text.toList) = some false := by
  obtain ⟨t, rfl, hruns⟩ := w.runs_of_weave h
  obtain ⟨rows, hrows, hquiet⟩ := hruns.grows
  apply Sheet.quiet_lines_output hruns.owned
  rw [hrows]
  exact hquiet

/-- The output of a pass that succeeds, woven again with the same segments under
any key, by any supplier and with any limit, comes out as it is. Its lines then
are their own origins, and the supplier is not asked for anything. -/
theorem weave_output_again {w : Weaver σ} {unit : SourceUnit} {stock : σ} {output : Output}
    {pass : Pass σ} (h : w.weave unit stock = .ok output pass) (w' : Weaver τ)
    (hplan : w'.plan = w.plan) (key : String) (stock' : τ) :
    ∃ output' pass', w'.weave ⟨key, output.text⟩ stock' = .ok output' pass' ∧
      output'.text = output.text ∧
      output'.origins.toList =
        (List.range' 1 (Text.shownLines output.text.toList).length).map (Location.mk key) ∧
      output'.closed = output.closed ∧ pass'.exchanges = #[] ∧ pass'.stock = stock' := by
  have hquiet := w.quiet_of_weave h
  rw [← hplan] at hquiet
  obtain ⟨pass', hweave, hexchanges, hstock⟩ :=
    w'.weave_of_quiet ⟨key, output.text⟩ hquiet stock'
  have hclosed : output.closed = output.text.toList.count '\n' := by
    obtain ⟨t, rfl, _⟩ := w.runs_of_weave h
    exact t.closed_output
  exact ⟨_, pass', hweave, rfl, rfl, hclosed.symm, hexchanges, hstock⟩

/-- The output of the sample can be woven again without a supplier and without
room for nested units. -/
theorem weave_output_again_sample : ∃ pass output' pass',
    Sample.weaver.weave Sample.entry Sample.library = .ok Sample.woven pass ∧
    ({ supplier := ⟨fun _ path => (.failed (.notFound path), ())⟩, plan := Sample.plan,
       limit := 0 } : Weaver Unit).weave ⟨"woven", Sample.woven.text⟩ () = .ok output' pass' ∧
    output'.text = Sample.woven.text ∧ output'.origins.size = 10 ∧ pass'.exchanges = #[] := by
  obtain ⟨pass, h⟩ := Sample.weave_eq_ok
  obtain ⟨output', pass', hweave, htext, horigins, _, hexchanges, _⟩ :=
    weave_output_again h ⟨⟨fun _ path => (.failed (.notFound path), ())⟩, Sample.plan, 0⟩ rfl
      "woven" ()
  refine ⟨pass, output', pass', h, hweave, htext, ?_, hexchanges⟩
  have hten : (Text.shownLines Sample.woven.text.toList).length = 10 := by decide +kernel
  rw [← Array.length_toList, horigins, List.length_map, List.length_range', hten]

end ShaderWeave
