import ShaderWeave.Proofs.Indentation

/-!
# What a cursor knows

A cursor counts lines and remembers how wide the last line of the output is, so that a scan
need not look either of them up. Nested units write to the same output meanwhile, and on a
directive line the width is out of date and the count is one ahead. The end of that line
makes both good again, so they can be relied on wherever a directive may begin.

## Main definitions

- `Cursor.InStep`: the cursor knows what has been read and how wide the output line is.

## Main results

- `Weaver.step_cases`: what reading one character within a line can do.
- `Cursor.InStep.step`, `Cursor.InStep.advance`: reading keeps the cursor in step.
- `scan_keeps_cursor_in_step`: the whole statement, for every place of every scan.
-/

namespace ShaderWeave

variable {σ : Type}

/-- The cursor is in step with the characters `done` that the scan has read and with the
output `o` that it stands at. -/
structure Cursor.InStep (cur : Cursor) (done : List Char) (o : Output) : Prop where
  /-- A line feed leaves no output line begun, whatever it ends. -/
  lineEnd : done.getLast? = some '\n' → o.isMidLine = false
  column : (∀ replaced, cur.mode ≠ .directive replaced) → cur.column = o.lineWidth
  /-- The count of lines is one ahead on a directive line, and there only. -/
  line : cur.line = done.count '\n' + Weaver.ahead cur.mode

namespace Weaver

variable {w : Weaver σ} {descend : Location → SourceUnit → WeaveM σ Unit} {key : String}
  {cur cur' : Cursor} {p q : Pass σ} {rest : List Char} {c : Char}

/-- Within a line, a step comes to stand on a directive line or stays there, or it copies the
character. -/
theorem step_cases (hc : c ≠ '\n') (h : (w.step descend key cur c rest).run p = .ok cur' q) :
    (∃ replaced, cur'.mode = .directive replaced) ∨
      (∀ replaced, cur.mode ≠ .directive replaced) ∧ cur' = cur.past [c] ∧ q = p.write [c] := by
  by_cases hdir : ∃ replaced, cur.mode = .directive replaced
  · obtain ⟨replaced, hdir⟩ := hdir
    simp only [step, hdir, hc, if_false] at h
    cases h
    exact Or.inl ⟨replaced, hdir⟩
  · have hne : ∀ replaced, cur.mode ≠ .directive replaced := not_exists.mp hdir
    have hcopy : w.step descend key cur c rest = copy key cur c →
        cur' = cur.past [c] ∧ q = p.write [c] := by
      intro heq
      rw [heq, run_copy hc] at h
      cases h
      exact ⟨rfl, rfl⟩
    by_cases hstart : cur.mode = .lineStart
    · cases hread : Directive.read? w.plan (c :: rest) with
      | none => exact Or.inr ⟨hne, hcopy (step_lineStart hstart hread)⟩
      | some d =>
        rw [step_directive hstart hread] at h
        obtain ⟨replaced, rfl⟩ := exists_mode_of_expand_ok h
        exact Or.inl ⟨replaced, rfl⟩
    · exact Or.inr ⟨hne, hcopy (step_busy ⟨hstart, hne⟩ c)⟩

end Weaver

namespace Cursor.InStep

variable {w : Weaver σ} {descend : Location → SourceUnit → WeaveM σ Unit} {key : String}
  {cur cur' : Cursor} {p q : Pass σ} {done more rest : List Char} {c : Char}

/-- A scan begins with the width of the line that it finds. -/
theorem start (o : Output) : InStep { column := o.lineWidth } [] o where
  lineEnd h := nomatch h
  column _ := rfl
  line := rfl

theorem step (h : cur.InStep done p.output)
    (hstep : (w.step descend key cur c rest).run p = .ok cur' q) :
    cur'.InStep (done ++ [c]) q.output where
  lineEnd hlast := by
    obtain rfl : c = '\n' := by simpa using hlast
    exact (Weaver.isMidLine_step_lineFeed hstep).1
  column hmode := by
    by_cases hc : c = '\n'
    · subst hc
      obtain ⟨hline, hcolumn⟩ := Weaver.isMidLine_step_lineFeed hstep
      rw [hcolumn, Output.lineWidth_eq_zero hline]
    · rcases Weaver.step_cases hc hstep with ⟨replaced, hdir⟩ | ⟨hne, rfl, rfl⟩
      · exact absurd hdir (hmode replaced)
      · have honeLine : '\n' ∉ [c] := by simpa using Ne.symm hc
        calc (cur.past [c]).column
          _ = cur.column + 1 := rfl
          _ = p.output.lineWidth + 1 := by rw [h.column hne]
          _ = (p.write [c]).output.lineWidth := (p.output.lineWidth_pushText honeLine).symm
  line := by
    have hcount := Weaver.line_step hstep
    have hline := h.line
    rw [List.count_append]
    omega

/-- Reading any part of a text keeps the cursor in step. -/
theorem advance (h : cur.InStep done p.output)
    (hrun : (w.advance descend key cur more rest).run p = .ok cur' q) :
    cur'.InStep (done ++ more) q.output := by
  induction more generalizing cur p done with
  | nil =>
    cases hrun
    rwa [List.append_nil]
  | cons c more ih =>
    obtain ⟨cur₁, p₁, hstep, hrun⟩ := WeaveM.run_bind_eq_ok.mp hrun
    have hmore := ih (h.step hstep) hrun
    rwa [List.append_assoc] at hmore

end Cursor.InStep

theorem Visit.Stands.inStep {w : Weaver σ} {v : Visit σ} {done rest : List Char} {cur : Cursor}
    {q : Pass σ} (h : v.Stands w done rest cur q) : cur.InStep done q.output :=
  (Cursor.InStep.start v.pass.output).advance h.2

/-- The end of a unit gives an origin to a line that is begun, and writes nothing. -/
theorem Weaver.text_of_finish {key : String} {cur : Cursor} {p q : Pass σ}
    (h : (finish key cur).run p = .ok () q) : q.output.text = p.output.text := by
  obtain ⟨-, rfl⟩ := finish_eq_ok.mp h
  exact Output.text_flush _ _

/-- Wherever a scan stands, in a unit that is woven onto whatever output: behind a line feed no
output line is begun; outside of directive lines the cursor has the width of the last output
line, and has counted the line feeds that have been read; and on a directive line it has
counted one line more. The end of the unit then writes nothing.

A scan is at its end where nothing is left to read. There is no mode for that: the cursor keeps
the one in which the last character left it. If that is the mode of a directive line, as when a
directive ends the unit without a line feed, the width is still the one from before the
expansion and the count is one ahead. Nothing is read or counted from such a cursor any more. -/
theorem scan_keeps_cursor_in_step {w : Weaver σ} {v : Visit σ} {done rest : List Char}
    {cur : Cursor} {q : Pass σ} (h : v.Stands w done rest cur q) :
    (∀ front, done = front ++ ['\n'] → q.output.isMidLine = false) ∧
    ((∀ replaced, cur.mode ≠ .directive replaced) →
      cur.column = q.output.lineWidth ∧ cur.line = done.count '\n') ∧
    (∀ replaced, cur.mode = .directive replaced → cur.line = done.count '\n' + 1) ∧
    ∀ q', (Weaver.finish v.unit.key cur).run q = .ok () q' → q'.output.text = q.output.text := by
  have hstep := h.inStep
  refine ⟨?_, ?_, ?_, fun q' => Weaver.text_of_finish⟩
  · rintro front rfl
    exact hstep.lineEnd List.getLast?_concat
  · intro hmode
    refine ⟨hstep.column hmode, ?_⟩
    rw [hstep.line, Weaver.ahead_eq_zero hmode, Nat.add_zero]
  · intro replaced hmode
    rw [hstep.line, hmode]
    rfl

namespace Sample

/-- The scan of a unit behind output that has been begun. -/
def resumed : Visit Library :=
  ⟨1, entry, { stock := library, output := { text := "pre; " } }⟩

end Sample

/-- On the directive line the cursor still has the width from before the expansion, which left
eight characters. Behind the line feed and the tabulator it has the true one again. -/
theorem scan_keeps_cursor_in_step_sample :
    (∃ q, Sample.resumed.Stands Sample.weaver (Sample.entry.text.toList.take 12)
        (Sample.entry.text.toList.drop 12) ⟨.directive true, 2, 2⟩ q ∧
      q.output.lineWidth = 8 ∧ 2 = (Sample.entry.text.toList.take 12).count '\n' + 1) ∧
    ∃ q, Sample.resumed.Stands Sample.weaver (Sample.entry.text.toList.take 26)
        (Sample.entry.text.toList.drop 26) ⟨.lineStart, 2, 1⟩ q ∧ 1 = q.output.lineWidth := by
  have hdirective : ∃ q, (Sample.weaver.advance (Sample.weaver.below 1) "main" { column := 5 }
      (Sample.entry.text.toList.take 12) (Sample.entry.text.toList.drop 12)).run
        Sample.resumed.pass = .ok ⟨.directive true, 2, 2⟩ q := by decide +kernel
  have hstart : ∃ q, (Sample.weaver.advance (Sample.weaver.below 1) "main" { column := 5 }
      (Sample.entry.text.toList.take 26) (Sample.entry.text.toList.drop 26)).run
        Sample.resumed.pass = .ok ⟨.lineStart, 2, 1⟩ q := by decide +kernel
  have hwidth : ((Sample.weaver.advance (Sample.weaver.below 1) "main" { column := 5 }
      (Sample.entry.text.toList.take 12) (Sample.entry.text.toList.drop 12)).leaves
        Sample.resumed.pass).output.lineWidth = 8 := by decide +kernel
  obtain ⟨q, hdirective⟩ := hdirective
  obtain ⟨q', hstart⟩ := hstart
  rw [WeaveM.leaves_of_ok hdirective] at hwidth
  have hstands : Sample.resumed.Stands Sample.weaver _ _ _ q :=
    ⟨(List.take_append_drop 12 _).symm, hdirective⟩
  have hstands' : Sample.resumed.Stands Sample.weaver _ _ _ q' :=
    ⟨(List.take_append_drop 26 _).symm, hstart⟩
  obtain ⟨-, -, hcount, -⟩ := scan_keeps_cursor_in_step hstands
  obtain ⟨-, hcolumn, -, -⟩ := scan_keeps_cursor_in_step hstands'
  exact ⟨⟨q, hstands, hwidth, hcount true rfl⟩, q', hstands', (hcolumn (by simp)).1⟩

end ShaderWeave
