import ShaderWeave.Proofs.Context
import ShaderWeave.Proofs.Placement
import ShaderWeave.Proofs.Recognition

/-!
# Reading a text in two parts

The scan of a unit looks ahead no further than to the end of a line, and at the end of a
line it keeps nothing but its line counter and whether a block comment is open. So a text
that is cut behind a line feed, outside of comments, may be woven as two units, one behind
the other: the pass does the same, and only the line numbers of the second part begin anew.

## Main definitions

- `Placement.outcome`: how a pass ends, for a placement of the text.

## Main results

- `Weaver.advance_lineFeed_rest`: what follows a line feed is not looked at before it.
- `Weaver.advance_to_lineStart`: where a scan stands behind a line feed.
- `Weaver.append_lineFeed_cases`: what becomes of a text whose first part ends in a line feed.
- `append_composes_at_line_ends`: the whole statement for two parts of a text.
-/

namespace ShaderWeave

variable {σ : Type}

/-- How a pass over a text ends, if the text stands at `pl`. -/
def Placement.outcome (pl : Placement) :
    EStateM.Result Fault (Draft σ) Unit → EStateM.Result Fault (Pass σ) Unit
  | .ok () d => .ok () (d.under pl)
  | .error fault d => .error (pl.fault fault) (d.under pl)

theorem Uniform.exists_outcome {act : Placement → WeaveM σ Unit} (h : Uniform .own same act)
    (p : Pass σ) : ∃ draft, ∀ pl, (act pl).run p = pl.outcome draft := by
  rcases h (.ofPass p) with ⟨⟨⟩, d, hok⟩ | ⟨fault, d, herror⟩
  · refine ⟨.ok () d, fun pl => ?_⟩
    have hrun := hok pl
    rwa [Draft.ofPass_under] at hrun
  · refine ⟨.error fault d, fun pl => ?_⟩
    have hrun := herror pl
    rwa [Draft.ofPass_under] at hrun

theorem Output.lineWidth_eq_zero {o : Output} (h : o.isMidLine = false) : o.lineWidth = 0 := by
  have hwidth := Output.lineWidth_append h {}
  rwa [Output.append_empty] at hwidth

theorem Output.flush_of_not_isMidLine {o : Output} (h : o.isMidLine = false) (l : Location) :
    o.flush l = o := by
  simp [flush, h]

/-! ## Looking ahead -/

/-- The directive that begins at a place is seen before the next line feed. -/
theorem Directive.read?_of_lineFeed_mem (plan : Plan) {text : List Char} (h : '\n' ∈ text)
    (rest : List Char) : Directive.read? plan (text ++ rest) = Directive.read? plan text := by
  obtain ⟨line, more, rfl, hline⟩ := List.eq_append_cons_of_mem h
  calc Directive.read? plan (line ++ '\n' :: more ++ rest)
    _ = Directive.read? plan (line ++ '\n' :: (more ++ rest)) := by simp
    _ = Directive.read? plan line := Directive.read?_append plan hline (Or.inr ⟨_, rfl⟩)
    _ = Directive.read? plan (line ++ '\n' :: more) :=
      (Directive.read?_append plan hline (Or.inr ⟨_, rfl⟩)).symm

namespace Weaver

variable {w : Weaver σ} {descend : Location → SourceUnit → WeaveM σ Unit} {key : String}
  {cur cur' : Cursor} {p q : Pass σ} {done : List Char}

/-- A step looks ahead no further than to a line feed. -/
theorem step_rest {c : Char} (h : '\n' ∈ c :: done) (rest : List Char) :
    w.step descend key cur c (done ++ rest) = w.step descend key cur c done := by
  unfold step
  rw [← List.cons_append, Directive.read?_of_lineFeed_mem w.plan h]

/-- What follows a line feed is not looked at before it. -/
theorem advance_lineFeed_rest (cur : Cursor) (done rest : List Char) :
    w.advance descend key cur (done ++ ['\n']) rest =
      w.advance descend key cur (done ++ ['\n']) [] := by
  induction done generalizing cur with
  | nil =>
    have hstep : w.step descend key cur '\n' rest = w.step descend key cur '\n' [] :=
      step_rest (by simp) rest
    simp only [List.nil_append, advance, hstep]
  | cons c done ih =>
    have hstep : w.step descend key cur c (done ++ ['\n'] ++ rest) =
        w.step descend key cur c (done ++ ['\n']) := step_rest (by simp) rest
    simp only [List.cons_append, advance, hstep, List.append_nil, ih]

/-! ## At the end of a line -/

theorem isMidLine_step_lineFeed {rest : List Char}
    (h : (w.step descend key cur '\n' rest).run p = .ok cur' q) :
    q.output.isMidLine = false ∧ cur'.column = 0 := by
  by_cases hdir : ∃ replaced, cur.mode = .directive replaced
  · obtain ⟨replaced, hdir⟩ := hdir
    rw [step_lineFeed_directive hdir] at h
    cases h
    refine ⟨?_, rfl⟩
    simp only
    split
    · exact Output.isMidLine_endLine _ _
    · next hkept =>
      obtain ⟨hline, -⟩ := Bool.or_eq_false_iff.mp (Bool.not_eq_true _ ▸ hkept)
      exact hline
  · rw [step_lineFeed fun replaced heq => hdir ⟨replaced, heq⟩] at h
    cases h
    exact ⟨Output.isMidLine_endLine _ _, rfl⟩

/-- Behind a line feed the scan stands at the start of a line, and so does the output. -/
theorem advance_to_lineStart {rest : List Char} (hmode : cur.mode = .lineStart)
    (h : (w.advance descend key cur (done ++ ['\n']) rest).run p = .ok cur' q) :
    (∃ commented, cur' = ⟨.atStart commented, cur.line + (done ++ ['\n']).count '\n', 0⟩) ∧
      q.output.isMidLine = false := by
  have hcount := line_advance h
  rw [advance_append, WeaveM.run_bind_eq_ok] at h
  obtain ⟨cur₁, p₁, -, hfeed⟩ := h
  rw [advance, WeaveM.run_bind_eq_ok] at hfeed
  obtain ⟨cur₂, p₂, hstep, hend⟩ := hfeed
  cases hend
  obtain ⟨hline, hcolumn⟩ := isMidLine_step_lineFeed hstep
  have hstart := mode_step_lineFeed hstep
  refine ⟨⟨cur₁.mode.isComment, ?_⟩, hline⟩
  rw [hmode, hstart, ahead_atStart] at hcount
  replace hcount : cur'.line = cur.line + (done ++ ['\n']).count '\n' := hcount
  calc cur'
    _ = ⟨cur'.mode, cur'.line, cur'.column⟩ := rfl
    _ = _ := by rw [hstart, hcount, hcolumn]

theorem run_append (w : Weaver σ) (unit : SourceUnit) (p : Pass σ) :
    (w.append unit).run p =
      (w.walk (w.below w.limit) unit.key { column := p.output.lineWidth } unit.text.toList >>=
        finish unit.key).run p := by
  rw [append, unitAt_eq_scan]
  rfl

/-- A text that is cut somewhere is read up to the cut and then to its end. -/
theorem run_append_parts (w : Weaver σ) (key : String) (a b : String) (p : Pass σ) :
    (w.append ⟨key, a ++ b⟩).run p =
      (w.advance (w.below w.limit) key { column := p.output.lineWidth } a.toList b.toList >>=
        fun cur => w.walk (w.below w.limit) key cur b.toList >>= finish key).run p := by
  rw [run_append, String.toList_append, walk_append, bind_assoc]

/-- What becomes of a text whose first part ends in a line feed. The first part fails on the
way, and so does the whole. Or the first part ends inside a block comment. Or it succeeds,
and the whole is read on from the start of a line, with the line counter where it stands. -/
theorem append_lineFeed_cases (w : Weaver σ) (key : String) {a : String}
    (ha : a.toList.getLast? = some '\n') (p : Pass σ) :
    (∃ fault q, (w.append ⟨key, a⟩).run p = .error fault q ∧
      ∀ b, (w.append ⟨key, a ++ b⟩).run p = .error fault q) ∨
    (∃ point q, (w.append ⟨key, a⟩).run p = .error (.unterminated key point) q) ∨
    ∃ q, (w.append ⟨key, a⟩).run p = .ok () q ∧ q.output.isMidLine = false ∧
      ∀ b, (w.append ⟨key, a ++ b⟩).run p =
        (w.walk (w.below w.limit) key { line := a.toList.count '\n', column := 0 } b.toList >>=
          finish key).run q := by
  obtain ⟨front, hfront⟩ := List.getLast?_eq_some_iff.mp ha
  have hparts := fun b => w.run_append_parts key a b p
  have hfirst := hparts ""
  rw [String.append_empty] at hfirst
  rw [hfront] at hparts hfirst ⊢
  simp only [advance_lineFeed_rest, EStateM.run_bind] at hparts hfirst
  cases hrun : (w.advance (w.below w.limit) key { column := p.output.lineWidth }
      (front ++ ['\n']) []).run p with
  | error fault q =>
    simp only [hrun] at hparts hfirst
    exact Or.inl ⟨fault, q, hfirst, hparts⟩
  | ok cur q =>
    obtain ⟨⟨commented, rfl⟩, hline⟩ := advance_to_lineStart rfl hrun
    simp only [hrun, Nat.zero_add] at hparts hfirst
    cases commented with
    | true => exact Or.inr (Or.inl ⟨.inside, q, hfirst⟩)
    | false =>
      have hfinish : (finish key ⟨.lineStart, (front ++ ['\n']).count '\n', 0⟩).run q =
          .ok () q := by
        refine finish_eq_ok.mpr ⟨rfl, ?_⟩
        rw [Output.flush_of_not_isMidLine hline]
      exact Or.inr (Or.inr ⟨q, hfirst.trans hfinish, hline, hparts⟩)

end Weaver

/-- A text is cut behind a line feed, and its first part is woven. If that succeeds, one draft
tells both how weaving the second part as a unit of any key goes on from there, and how
weaving the undivided text ends, where the lines of the second part are counted on from
those of the first. As the key is free, the draft leaves open just what is reported for the
second part itself. If the first part fails, and not because a block comment is open at the
cut, the undivided text fails with the same fault and in the same state. -/
theorem append_composes_at_line_ends (w : Weaver σ) (key : String) {a : String}
    (ha : a.toList.getLast? = some '\n') (b : String) (p : Pass σ) :
    (∀ q, (w.append ⟨key, a⟩).run p = .ok () q →
      ∃ draft : EStateM.Result Fault (Draft σ) Unit,
        (∀ key', (w.append ⟨key', b⟩).run q = Placement.outcome ⟨key', 0⟩ draft) ∧
        (w.append ⟨key, a ++ b⟩).run p = Placement.outcome ⟨key, a.toList.count '\n'⟩ draft) ∧
    ∀ fault q, (w.append ⟨key, a⟩).run p = .error fault q →
      (∀ point, fault ≠ .unterminated key point) →
      (w.append ⟨key, a ++ b⟩).run p = .error fault q := by
  rcases w.append_lineFeed_cases key ha p with ⟨fault, q, hfirst, hwhole⟩ |
    ⟨point, q, hfirst⟩ | ⟨q, hfirst, hline, hwhole⟩
  · rw [hfirst, hwhole]
    exact ⟨fun _ h => (nomatch h), fun _ _ h _ => h⟩
  · rw [hfirst]
    refine ⟨fun _ h => (nomatch h), fun fault q' h hfault => ?_⟩
    cases h
    exact absurd rfl (hfault point)
  · rw [hfirst]
    refine ⟨fun q' h => ?_, fun _ _ h => (nomatch h)⟩
    cases h
    -- what is read behind the cut begins with the same cursor, up to its line counter
    obtain ⟨draft, hdraft⟩ := Uniform.exists_outcome
      (Weaver.uniform_read (w.uniform_below .own w.limit) w { column := 0 } b.toList) q
    refine ⟨draft, fun key' => ?_, ?_⟩
    · rw [w.run_append, Output.lineWidth_eq_zero hline, ← hdraft]
      rfl
    · rw [hwhole, ← hdraft]
      rfl

namespace Sample

def cutter : Weaver Library where
  supplier := Library.supplier
  plan := .ofList [{ placeholder := ⟨"#pragma X", ""⟩, name := "x", snippet := "x();" }]

/-- One of the texts has the key of the unit that includes it. -/
def drawer : Library :=
  .ofList [("noise", "float n;\n"), ("main", "float m;")]

/-- A directive line, and a comment that ends in front of the cut. -/
def upper : String :=
  "#include \"noise\"\n/* #pragma X\n*/\n"

/-- Directives of all kinds, and a line that fails. -/
def lower : String :=
  "  #include \"main\"\n#include \"noise\"\n#pragma X\n#include \"lost\"\n"

def broken : String :=
  "a\n#include\n"

end Sample

/-- The fourth line of the lower part is the seventh of the whole. A part that fails by
itself fails in front of any text. -/
theorem append_composes_at_line_ends_sample :
    (∃ q, (Sample.cutter.append ⟨"main", Sample.upper⟩).run { stock := Sample.drawer } =
        .ok () q ∧
      ∀ key, ∃ q', (Sample.cutter.append ⟨key, Sample.lower⟩).run q =
          .error (.unresolved "lost" ⟨key, 4⟩ (.notFound "lost")) q' ∧
        q'.requests = #["noise", "main", "noise", "lost"]) ∧
    ∀ b, ∃ q, (Sample.cutter.append ⟨"main", Sample.broken ++ b⟩).run { stock := Sample.drawer } =
      .error (.malformedInclusion ⟨"main", 2⟩) q := by
  have hupper : ∃ q, (Sample.cutter.append ⟨"main", Sample.upper⟩).run { stock := Sample.drawer } =
      .ok () q := by decide +kernel
  have hwhole : ∃ q, (Sample.cutter.append ⟨"main", Sample.upper ++ Sample.lower⟩).run
      { stock := Sample.drawer } =
        .error (.unresolved "lost" ⟨"main", 7⟩ (.notFound "lost")) q := by decide +kernel
  have hrequests : ((Sample.cutter.append ⟨"main", Sample.upper ++ Sample.lower⟩).leaves
      { stock := Sample.drawer }).requests = #["noise", "main", "noise", "lost"] := by
    decide +kernel
  have hbroken : ∃ q, (Sample.cutter.append ⟨"main", Sample.broken⟩).run
      { stock := Sample.drawer } = .error (.malformedInclusion ⟨"main", 2⟩) q := by decide +kernel
  obtain ⟨q, hupper⟩ := hupper
  obtain ⟨q', hwhole⟩ := hwhole
  obtain ⟨r, hbroken⟩ := hbroken
  constructor
  · refine ⟨q, hupper, fun key => ?_⟩
    obtain ⟨draft, hlower, hplaced⟩ := (append_composes_at_line_ends Sample.cutter "main"
      (a := Sample.upper) (by decide) Sample.lower { stock := Sample.drawer }).1 q hupper
    rw [hwhole] at hplaced
    rw [WeaveM.leaves_of_error hwhole] at hrequests
    rw [hlower]
    cases draft with
    | ok _ d => cases hplaced
    | error fault d =>
      obtain ⟨hfault, rfl⟩ := EStateM.Result.error.inj hplaced
      refine ⟨d.under ⟨key, 0⟩, ?_, hrequests⟩
      -- the fault's own line is the one number that differs between the two places
      cases fault with
      | unresolved path site cause =>
        obtain ⟨rfl, hsite, rfl⟩ := Fault.unresolved.inj hfault
        have hline : site.line = 4 := by
          have hseven := congrArg Location.line hsite
          simp only [Placement.location] at hseven
          have hthree : Sample.upper.toList.count '\n' = 3 := by decide
          omega
        simp only [Placement.outcome, Placement.fault, Placement.location, hline, Nat.zero_add]
      | _ => cases hfault
  · intro b
    exact ⟨r, (append_composes_at_line_ends Sample.cutter "main" (by decide) b
      { stock := Sample.drawer }).2 _ r hbroken (fun point h => by cases h)⟩

end ShaderWeave
