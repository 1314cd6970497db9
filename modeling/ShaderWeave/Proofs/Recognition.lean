import ShaderWeave.Proofs.DirectiveLine
import ShaderWeave.Proofs.Visit
import ShaderWeave.Supply.Library

/-!
# The scan recognises the directive lines

The scan of a unit looks for a directive wherever a line has shown nothing but
white space so far, and acts on the one it finds. So it acts on the directive lines
of the unit: on each of them once, from the first to the last, until the expansion
of one of them fails.

## Main definitions

- `Weaver.actsOn?`: the directive that the next step of a scan acts on.
- `Weaver.acts`, `Visit.acts`: the directives that a scan acts on, in order.
- `Visit.Acts`: the scan of a visit comes to act on a directive.

## Main results

- `Weaver.acts_unlines`: what a scan acts on, line by line.
- `Weaver.exists_of_advance_error`: a scan fails only where it acts on a directive.
- `Visit.acts_prefix_listing`, `Visit.Stands.acts_eq`: what the scan of a unit acts on.
- `Visit.Fails.cases`: how the scan of a unit fails.
-/

namespace ShaderWeave

variable {σ : Type}

namespace Weaver

variable {w : Weaver σ} {descend : Location → SourceUnit → WeaveM σ Unit} {key : String}
  {cur cur' : Cursor} {p q : Pass σ} {line done rest : List Char} {n : Nat} {d : Directive}

/-- The directive that the scan acts on with the step it takes at `cur`, where it has
`text` before it, and the number of the directive's line. -/
def actsOn? (w : Weaver σ) (cur : Cursor) (text : List Char) : Option (Nat × Directive) :=
  if cur.mode = .lineStart then (Directive.read? w.plan text).map (cur.line + 1, ·) else none

/-- The directives that the scan acts on while it reads the characters `done`, which
`rest` follows, first one first. It has acted on a directive also if the expansion
of the directive then fails. -/
def acts (w : Weaver σ) (descend : Location → SourceUnit → WeaveM σ Unit) (key : String) :
    Cursor → List Char → List Char → Pass σ → List (Nat × Directive)
  | _, [], _, _ => []
  | cur, c :: done, rest, p =>
    (w.actsOn? cur (c :: (done ++ rest))).toList ++
      match (w.step descend key cur c (done ++ rest)).run p with
      | .ok cur' q => w.acts descend key cur' done rest q
      | .error _ _ => []

/-! ## Steps -/

theorem actsOn?_eq_some_iff {text : List Char} :
    w.actsOn? cur text = some (n, d) ↔
      cur.mode = .lineStart ∧ n = cur.line + 1 ∧ Directive.read? w.plan text = some d := by
  by_cases hmode : cur.mode = .lineStart
  · simp only [actsOn?, hmode, if_true, Option.map_eq_some_iff, Prod.mk.injEq, true_and]
    constructor
    · rintro ⟨d', hread, rfl, rfl⟩
      exact ⟨rfl, hread⟩
    · rintro ⟨rfl, hread⟩
      exact ⟨d, hread, rfl, rfl⟩
  · simp [actsOn?, hmode]

/-- To act on a directive is to expand it on behalf of its line. -/
theorem step_of_actsOn? {c : Char} (h : w.actsOn? cur (c :: rest) = some (n, d)) :
    w.step descend key cur c rest = w.expand descend key cur d := by
  obtain ⟨hmode, -, hread⟩ := actsOn?_eq_some_iff.mp h
  exact step_directive hmode hread

/-- A step that acts on no directive writes to the output at most, and succeeds. -/
theorem run_step_of_actsOn?_eq_none {c : Char} (h : w.actsOn? cur (c :: rest) = none) :
    ∃ cur' o, (w.step descend key cur c rest).run p = .ok cur' { p with output := o } := by
  have hcopy : ∃ cur' o, (copy key cur c).run p = .ok cur' { p with output := o } := by
    by_cases hc : c = '\n'
    · simp only [copy, hc, if_true]
      exact ⟨_, _, rfl⟩
    · exact ⟨_, _, run_copy hc⟩
  by_cases hstart : cur.mode = .lineStart
  · have hread : Directive.read? w.plan (c :: rest) = none := by
      simpa [actsOn?, hstart] using h
    rw [step_lineStart hstart hread]
    exact hcopy
  · by_cases hdir : ∃ replaced, cur.mode = .directive replaced
    · obtain ⟨replaced, hdir⟩ := hdir
      by_cases hc : c = '\n'
      · subst hc
        exact ⟨_, _, step_lineFeed_directive hdir⟩
      · simp only [step, hdir, hc, if_false]
        exact ⟨cur, p.output, rfl⟩
    · rw [step_busy ⟨hstart, fun replaced heq => hdir ⟨replaced, heq⟩⟩]
      exact hcopy

/-! ## Runs -/

theorem acts_append (cur : Cursor) (a b rest : List Char) (p : Pass σ) :
    w.acts descend key cur (a ++ b) rest p = w.acts descend key cur a (b ++ rest) p ++
      match (w.advance descend key cur a (b ++ rest)).run p with
      | .ok cur' q => w.acts descend key cur' b rest q
      | .error _ _ => [] := by
  induction a generalizing cur p with
  | nil => rfl
  | cons c a ih =>
    simp only [List.cons_append, acts, advance, List.append_assoc, EStateM.run_bind]
    cases (w.step descend key cur c (a ++ (b ++ rest))).run p with
    | error fault q => rfl
    | ok cur' q =>
      simp only
      rw [ih cur' q]

/-- A directive that the scan acts on is one that it reads at a place where it
stands. -/
theorem exists_of_mem_acts (h : (n, d) ∈ w.acts descend key cur done rest p) :
    ∃ a c b cur' q, done = a ++ c :: b ∧
      (w.advance descend key cur a (c :: (b ++ rest))).run p = .ok cur' q ∧
      w.actsOn? cur' (c :: (b ++ rest)) = some (n, d) := by
  induction done generalizing cur p with
  | nil => cases h
  | cons c done ih =>
    rcases List.mem_append.mp h with hhere | hbehind
    · exact ⟨[], c, done, cur, p, rfl, rfl, Option.mem_toList.mp hhere⟩
    · cases hstep : (w.step descend key cur c (done ++ rest)).run p with
      | error fault q =>
        rw [hstep] at hbehind
        cases hbehind
      | ok cur₁ q₁ =>
        rw [hstep] at hbehind
        obtain ⟨a, c', b, cur', q, hdone, hadvance, hacts⟩ := ih hbehind
        refine ⟨c :: a, c', b, cur', q, by rw [hdone]; rfl, ?_, hacts⟩
        rw [advance, WeaveM.run_bind_eq_ok]
        refine ⟨cur₁, q₁, ?_, hadvance⟩
        rw [← hstep, hdone]
        simp

/-- A scan that fails has acted on a directive with its last step, and has failed to
expand it. -/
theorem exists_of_advance_error {fault : Fault}
    (h : (w.advance descend key cur done rest).run p = .error fault q) :
    ∃ a c b cur' p' n d, done = a ++ c :: b ∧
      (w.advance descend key cur a (c :: (b ++ rest))).run p = .ok cur' p' ∧
      w.actsOn? cur' (c :: (b ++ rest)) = some (n, d) ∧
      (w.expand descend key cur' d).run p' = .error fault q ∧
      w.acts descend key cur done rest p =
        w.acts descend key cur a (c :: (b ++ rest)) p ++ [(n, d)] := by
  induction done generalizing cur p with
  | nil => cases h
  | cons c done ih =>
    rw [advance, EStateM.run_bind] at h
    cases hstep : (w.step descend key cur c (done ++ rest)).run p with
    | error fault' q' =>
      rw [hstep] at h
      cases h
      cases hacts : w.actsOn? cur (c :: (done ++ rest)) with
      | none =>
        obtain ⟨cur', o, hok⟩ : ∃ cur' o, (w.step descend key cur c (done ++ rest)).run p =
            .ok cur' { p with output := o } := run_step_of_actsOn?_eq_none hacts
        rw [hstep] at hok
        cases hok
      | some act =>
        obtain ⟨n, d⟩ := act
        refine ⟨[], c, done, cur, p, n, d, rfl, rfl, hacts, ?_, ?_⟩
        · rw [← step_of_actsOn? hacts, hstep]
        · simp [acts, hacts, hstep]
    | ok cur₁ p₁ =>
      rw [hstep] at h
      obtain ⟨a, c', b, cur', p', n, d, rfl, hadvance, hacts, hexpand, heq⟩ := ih h
      have hstep' : (w.step descend key cur c (a ++ c' :: (b ++ rest))).run p = .ok cur₁ p₁ := by
        rw [← hstep]
        simp
      refine ⟨c :: a, c', b, cur', p', n, d, rfl, ?_, hacts, hexpand, ?_⟩
      · rw [advance, WeaveM.run_bind_eq_ok]
        exact ⟨cur₁, p₁, hstep', hadvance⟩
      · simp only [acts, hstep', heq, List.append_assoc, List.cons_append]

/-! ## Lines -/

/-- On a plain line the scan acts on nothing. -/
theorem acts_plain {commented : Bool} (hmode : cur.mode = .atStart commented)
    (hline : '\n' ∉ line) (hplain : Line.directive? w.plan commented line = none)
    (hrest : Text.EndsLine rest) : w.acts descend key cur line rest p = [] := by
  apply List.eq_nil_iff_forall_not_mem.mpr
  rintro ⟨n, d⟩ hmem
  obtain ⟨a, c, b, cur', q, rfl, hadvance, hacts⟩ := exists_of_mem_acts hmem
  obtain ⟨hstart, -, hread⟩ := actsOn?_eq_some_iff.mp hacts
  obtain ⟨ha, hb⟩ := Text.oneLine_append hline
  -- only white space lies in front of the place, so the line consists of the directive
  obtain ⟨hmode', hblank⟩ := blank_of_advance_lineStart ha hadvance hstart
  have hcommented : commented = false := by
    cases commented with
    | false => rfl
    | true =>
      rw [hmode] at hmode'
      cases hmode'
  rw [← List.cons_append, Directive.read?_append w.plan hb hrest] at hread
  rw [hcommented, (Line.directive?_of_read? hblank hread).1] at hplain
  cases hplain

theorem acts_blanks (hblank : ∀ c ∈ line, Text.isSpace c) :
    w.acts descend key cur line rest p = [] := by
  apply List.eq_nil_iff_forall_not_mem.mpr
  rintro ⟨n, d⟩ hmem
  obtain ⟨a, c, b, cur', q, rfl, -, hacts⟩ := exists_of_mem_acts hmem
  obtain ⟨-, -, hread⟩ := actsOn?_eq_some_iff.mp hacts
  rw [read?_of_isSpace _ (hblank c (by simp))] at hread
  cases hread

theorem acts_directiveMode {replaced : Bool} (hmode : cur.mode = .directive replaced)
    (hline : '\n' ∉ line) : w.acts descend key cur line rest p = [] := by
  apply List.eq_nil_iff_forall_not_mem.mpr
  rintro ⟨n, d⟩ hmem
  obtain ⟨a, c, b, cur', q, rfl, hadvance, hacts⟩ := exists_of_mem_acts hmem
  obtain ⟨hstart, -, -⟩ := actsOn?_eq_some_iff.mp hacts
  rw [advance_directiveMode hmode (Text.oneLine_append hline).1] at hadvance
  cases hadvance
  rw [hmode] at hstart
  cases hstart

/-- On a directive line the scan acts on the directive, and on nothing else. -/
theorem acts_directive (hmode : cur.mode = .lineStart) (hline : '\n' ∉ line)
    (hd : Line.directive? w.plan false line = some d) (hrest : Text.EndsLine rest) :
    w.acts descend key cur line rest p = [(cur.line + 1, d)] := by
  obtain ⟨body, hsplit, hbody, hblank, -⟩ := exists_blanks_append line
  have hread : Directive.read? w.plan body = some d := by
    rw [← hbody]
    exact hd
  generalize line.takeWhile Text.isSpace = lead at hsplit hblank
  subst hsplit
  obtain ⟨hlead, hbodyLine⟩ := Text.oneLine_append hline
  have hcopied : (w.advance descend key cur lead (body ++ rest)).run p =
      .ok (cur.past lead) (p.write lead) := advance_blanks hmode hblank hlead
  have hstart : (cur.past lead).mode = .lineStart := by
    simp [Cursor.past, hmode, foldl_next_blanks hblank]
  rw [acts_append, acts_blanks hblank, hcopied, List.nil_append]
  cases body with
  | nil => cases hread
  | cons c body =>
    have hacts : w.actsOn? (cur.past lead) (c :: (body ++ rest)) = some (cur.line + 1, d) := by
      rw [actsOn?_eq_some_iff, ← List.cons_append, Directive.read?_append w.plan hbodyLine hrest]
      exact ⟨hstart, rfl, hread⟩
    simp only [acts, hacts, step_of_actsOn? hacts, Option.toList_some]
    cases hexpand : (w.expand descend key (cur.past lead) d).run (p.write lead) with
    | error fault q => rfl
    | ok cur' q =>
      obtain ⟨replaced, rfl⟩ := exists_mode_of_expand_ok hexpand
      simp only
      rw [acts_directiveMode rfl (Text.oneLine_cons hbodyLine).2]
      rfl

theorem acts_line {commented : Bool} (hmode : cur.mode = .atStart commented)
    (hline : '\n' ∉ line) (hrest : Text.EndsLine rest) :
    w.acts descend key cur line rest p =
      ((Line.directive? w.plan commented line).map (cur.line + 1, ·)).toList := by
  cases hd : Line.directive? w.plan commented line with
  | none => exact acts_plain hmode hline hd hrest
  | some d =>
    obtain rfl := Line.commented_eq_false hd
    exact acts_directive hmode hline hd hrest

/-- The scan of a line ends inside a block comment just if the next line begins
inside one. -/
theorem isComment_advance {commented : Bool} (hmode : cur.mode = .atStart commented)
    (hline : '\n' ∉ line) (hrest : Text.EndsLine rest)
    (h : (w.advance descend key cur line rest).run p = .ok cur' q) :
    cur'.mode.isComment = Line.commentedNext w.plan commented line := by
  cases hd : Line.directive? w.plan commented line with
  | none =>
    rw [advance_plain hmode hline hd hrest] at h
    cases h
    simp only [Cursor.past, hmode, Line.commentedNext, hd, Option.isNone_none, Bool.true_and]
    exact Mode.isComment_foldl_atStart commented hline
  | some d =>
    obtain rfl := Line.commented_eq_false hd
    rw [advance_directive hmode hline hd hrest] at h
    obtain ⟨replaced, rfl⟩ := exists_mode_of_expand_ok h
    simp [Line.commentedNext, hd, Mode.isComment]

/-- The line feed takes the scan to the start of the next line. -/
theorem mode_step_lineFeed (h : (w.step descend key cur '\n' rest).run p = .ok cur' q) :
    cur'.mode = .atStart cur.mode.isComment := by
  by_cases hdir : ∃ replaced, cur.mode = .directive replaced
  · obtain ⟨replaced, hdir⟩ := hdir
    rw [step_lineFeed_directive hdir] at h
    cases h
    rw [hdir]
    rfl
  · have hne : ∀ replaced, cur.mode ≠ .directive replaced :=
      fun replaced heq => hdir ⟨replaced, heq⟩
    rw [step_lineFeed hne] at h
    cases h
    exact Mode.next_lineFeed hne

theorem ahead_atStart (commented : Bool) : ahead (.atStart commented) = 0 :=
  ahead_eq_zero (Mode.atStart_ne_directive commented)

/-- A line and its line feed take the scan from the start of the line to the start
of the next one. -/
theorem advance_lineFeed {commented : Bool} (hmode : cur.mode = .atStart commented)
    (hline : '\n' ∉ line)
    (h : (w.advance descend key cur (line ++ ['\n']) rest).run p = .ok cur' q) :
    cur'.mode = .atStart (Line.commentedNext w.plan commented line) ∧
      cur'.line = cur.line + 1 := by
  have hmode' : cur'.mode = .atStart (Line.commentedNext w.plan commented line) := by
    rw [advance_append, WeaveM.run_bind_eq_ok] at h
    obtain ⟨cur₁, q₁, hadvance, hfeed⟩ := h
    rw [advance, WeaveM.run_bind_eq_ok] at hfeed
    obtain ⟨cur₂, q₂, hstep, hend⟩ := hfeed
    cases hend
    rw [mode_step_lineFeed hstep, isComment_advance hmode hline (Or.inr ⟨rest, rfl⟩) hadvance]
  have hcount : (line ++ ['\n']).count '\n' = 1 := by
    rw [List.count_append, List.count_eq_zero.mpr hline]
    rfl
  have hcounter := line_advance h
  rw [hmode, hmode', ahead_atStart, ahead_atStart, hcount] at hcounter
  exact ⟨hmode', hcounter⟩

theorem acts_lineFeed {commented : Bool} (hmode : cur.mode = .atStart commented)
    (hline : '\n' ∉ line) :
    w.acts descend key cur (line ++ ['\n']) rest p =
      ((Line.directive? w.plan commented line).map (cur.line + 1, ·)).toList := by
  have hrest : Text.EndsLine (['\n'] ++ rest) := Or.inr ⟨rest, rfl⟩
  rw [acts_append, acts_line hmode hline hrest]
  cases (w.advance descend key cur line (['\n'] ++ rest)).run p with
  | error fault q => exact List.append_nil _
  | ok cur' q =>
    have hblank : ∀ c ∈ ['\n'], Text.isSpace c := by
      intro c hc
      rw [List.mem_singleton.mp hc]
      decide
    simp only [acts_blanks hblank, List.append_nil]

/-- The scan of whole lines acts on the directives that are listed for them, until it
fails. If it does not fail it acts on all of them. -/
theorem acts_unlines (w : Weaver σ) (descend : Location → SourceUnit → WeaveM σ Unit)
    (key : String) (p : Pass σ) {ls : List (List Char)} (hne : ls ≠ [])
    (hclean : ∀ l ∈ ls, '\n' ∉ l) {commented : Bool} (hmode : cur.mode = .atStart commented) :
    w.acts descend key cur (Text.unlines ls) [] p <+:
        Line.listing w.plan cur.line commented ls ∧
      ∀ cur' q, (w.advance descend key cur (Text.unlines ls) []).run p = .ok cur' q →
        w.acts descend key cur (Text.unlines ls) [] p =
            Line.listing w.plan cur.line commented ls ∧
          cur'.mode.isComment = ls.foldl (Line.commentedNext w.plan) commented := by
  induction ls generalizing cur p commented with
  | nil => exact absurd rfl hne
  | cons line ls ih =>
    have hline : '\n' ∉ line := hclean line List.mem_cons_self
    by_cases hlast : ls = []
    · subst hlast
      rw [Text.unlines_singleton, acts_line hmode hline (Or.inl rfl), Line.listing, Line.listing,
        List.append_nil]
      refine ⟨List.prefix_refl _, fun cur' q h => ⟨rfl, ?_⟩⟩
      exact isComment_advance hmode hline (Or.inl rfl) h
    · have hsplit : Text.unlines (line :: ls) = (line ++ ['\n']) ++ Text.unlines ls := by
        simp [Text.unlines_cons line hlast]
      rw [hsplit, acts_append, acts_lineFeed hmode hline, Line.listing]
      cases hrun : (w.advance descend key cur (line ++ ['\n']) (Text.unlines ls ++ [])).run p with
      | error fault q₁ =>
        refine ⟨by simp, fun cur' q h => ?_⟩
        rw [advance_append, EStateM.run_bind, hrun] at h
        cases h
      | ok cur₁ q₁ =>
        obtain ⟨hmode₁, hnumber⟩ := advance_lineFeed hmode hline hrun
        obtain ⟨hfirst, hall⟩ := ih q₁ hlast (fun l hl => hclean l (List.mem_cons_of_mem _ hl))
          hmode₁
        rw [hnumber] at hfirst hall
        refine ⟨List.prefix_append_right_inj _ |>.mpr hfirst, fun cur' q h => ?_⟩
        rw [advance_append, EStateM.run_bind, hrun] at h
        obtain ⟨hacts, hopen⟩ := hall cur' q h
        exact ⟨congrArg _ hacts, hopen⟩

theorem acts_text (hmode : cur.mode = .lineStart) (text : List Char) :
    w.acts descend key cur text [] p <+: Line.listing w.plan cur.line false (Text.lines text) ∧
      ∀ cur' q, (w.advance descend key cur text []).run p = .ok cur' q →
        w.acts descend key cur text [] p =
            Line.listing w.plan cur.line false (Text.lines text) ∧
          cur'.mode.isComment = (Text.lines text).foldl (Line.commentedNext w.plan) false := by
  have hlines : ∀ l ∈ Text.lines text, '\n' ∉ l := fun l hl => Text.oneLine_of_mem_lines hl
  have hstart : cur.mode = .atStart false := hmode
  have hacts := acts_unlines w descend key p (Text.lines_ne_nil text) hlines hstart
  rw [Text.unlines_lines] at hacts
  exact hacts

end Weaver

/-! ## Units -/

namespace Visit

variable {v : Visit σ} {w : Weaver σ} {j : Nat} {d : Directive} {cur : Cursor} {p q : Pass σ}
  {fault : Fault}

/-- The directives that the scan of the visit acts on, first one first. -/
def acts (v : Visit σ) (w : Weaver σ) : List (Nat × Directive) :=
  w.acts (w.below v.room) v.unit.key { column := v.pass.output.lineWidth } v.text [] v.pass

/-- The scan comes to act on the directive `d` of line `j`, and does so at `cur` in the
state `q`. Lines are counted from zero. -/
def Acts (v : Visit σ) (w : Weaver σ) (j : Nat) (d : Directive) (cur : Cursor) (q : Pass σ) :
    Prop :=
  ∃ done rest, v.Stands w done rest cur q ∧ w.actsOn? cur rest = some (j + 1, d)

/-- The scan stops with a fault, and leaves the pass in the state `q`. -/
def Fails (v : Visit σ) (w : Weaver σ) (fault : Fault) (q : Pass σ) : Prop :=
  (w.unitAt v.room v.unit).run v.pass = .error fault q

/-- A unit is read from its first character to its last, and then its end is
reached. -/
theorem run_unitAt (v : Visit σ) (w : Weaver σ) :
    (w.unitAt v.room v.unit).run v.pass =
      match (w.advance (w.below v.room) v.unit.key { column := v.pass.output.lineWidth } v.text
        []).run v.pass with
      | .ok cur q => (Weaver.finish v.unit.key cur).run q
      | .error fault q => .error fault q := by
  rw [Weaver.unitAt_eq_scan, Weaver.scan, EStateM.run_bind]
  simp only [EStateM.run_get, Weaver.walk_eq_advance, EStateM.run_bind, Visit.text]
  cases (w.advance (w.below v.room) v.unit.key { column := v.pass.output.lineWidth }
    v.unit.text.toList []).run v.pass <;> rfl

/-- A scan that succeeds comes to the end of the unit. -/
theorem Ends.exists_stands (h : v.Ends w q) :
    ∃ cur p, v.Stands w v.text [] cur p ∧ (Weaver.finish v.unit.key cur).run p = .ok () q := by
  rw [Ends, run_unitAt] at h
  cases hrun : (w.advance (w.below v.room) v.unit.key { column := v.pass.output.lineWidth }
      v.text []).run v.pass with
  | error fault p =>
    rw [hrun] at h
    cases h
  | ok cur p =>
    rw [hrun] at h
    exact ⟨cur, p, ⟨(List.append_nil _).symm, hrun⟩, h⟩

theorem acts_prefix_listing (v : Visit σ) (w : Weaver σ) :
    v.acts w <+: Line.listing w.plan 0 false (Text.lines v.text) :=
  (Weaver.acts_text rfl v.text).1

/-- A scan that has come to the end of the unit has acted on all directives that are
listed for the unit. -/
theorem Stands.acts_eq (h : v.Stands w v.text [] cur q) :
    v.acts w = Line.listing w.plan 0 false (Text.lines v.text) ∧
      cur.mode.isComment = (Text.lines v.text).foldl (Line.commentedNext w.plan) false :=
  (Weaver.acts_text rfl v.text).2 cur q h.2

/-- A scan that succeeds has acted on all of them, and no block comment has been left
open. -/
theorem Ends.acts_eq (h : v.Ends w q) :
    v.acts w = Line.listing w.plan 0 false (Text.lines v.text) ∧
      (Text.lines v.text).foldl (Line.commentedNext w.plan) false = false := by
  obtain ⟨cur, p, hstands, hfinish⟩ := h.exists_stands
  obtain ⟨hacts, hopen⟩ := hstands.acts_eq
  exact ⟨hacts, hopen.symm.trans (Weaver.finish_eq_ok.mp hfinish).1⟩

/-- Where the scan acts on a directive there is a character to read. -/
theorem Acts.exists_stands (h : v.Acts w j d cur q) :
    ∃ done c rest, v.Stands w done (c :: rest) cur q ∧
      w.actsOn? cur (c :: rest) = some (j + 1, d) := by
  obtain ⟨done, rest, hstands, hacts⟩ := h
  cases rest with
  | nil =>
    obtain ⟨-, -, hread⟩ := Weaver.actsOn?_eq_some_iff.mp hacts
    cases hread
  | cons c rest => exact ⟨done, c, rest, hstands, hacts⟩

theorem Acts.mem_acts (h : v.Acts w j d cur q) : (j + 1, d) ∈ v.acts w := by
  obtain ⟨done, c, rest, hstands, hacts⟩ := h.exists_stands
  rw [acts, hstands.1, Weaver.acts_append, List.append_nil, hstands.2]
  simp [Weaver.acts, hacts]

/-- The directive that the scan acts on is the one that its line consists of. -/
theorem Acts.directiveAt? (h : v.Acts w j d cur q) :
    Line.directiveAt? w.plan v.text j = some d :=
  Line.directiveAt?_of_mem_listing ((v.acts_prefix_listing w).subset h.mem_acts)

theorem Acts.line_eq (h : v.Acts w j d cur q) : cur.line = j := by
  obtain ⟨done, rest, -, hacts⟩ := h
  obtain ⟨-, hline, -⟩ := Weaver.actsOn?_eq_some_iff.mp hacts
  omega

/-- If a directive cannot be expanded, the scan that acts on it comes no further. -/
theorem Acts.advance_eq_error (h : v.Acts w j d cur p)
    (hexpand : (w.expand (w.below v.room) v.unit.key cur d).run p = .error fault q) :
    (w.advance (w.below v.room) v.unit.key { column := v.pass.output.lineWidth } v.text []).run
      v.pass = .error fault q := by
  obtain ⟨done, c, rest, hstands, hacts⟩ := h.exists_stands
  have hstep : (w.step (w.below v.room) v.unit.key cur c (rest ++ [])).run p =
      .error fault q := by
    rw [List.append_nil, Weaver.step_of_actsOn? hacts, hexpand]
  rw [hstands.1, Weaver.advance_append, EStateM.run_bind, List.append_nil, hstands.2]
  simp only [Weaver.advance, EStateM.run_bind, hstep]

theorem Acts.fails (h : v.Acts w j d cur p)
    (hexpand : (w.expand (w.below v.room) v.unit.key cur d).run p = .error fault q) :
    v.Fails w fault q := by
  rw [Fails, run_unitAt, h.advance_eq_error hexpand]

/-- A scan fails where it acts on a directive that cannot be expanded, or at the end
of the unit, inside a block comment. -/
theorem Fails.cases (h : v.Fails w fault q) :
    (∃ cur point, v.Stands w v.text [] cur q ∧ cur.mode = .blockComment point ∧
      fault = .unterminated v.unit.key point) ∨
    ∃ front j d cur p, v.acts w = front ++ [(j + 1, d)] ∧ v.Acts w j d cur p ∧
      (w.expand (w.below v.room) v.unit.key cur d).run p = .error fault q := by
  rw [Fails, run_unitAt] at h
  cases hrun : (w.advance (w.below v.room) v.unit.key { column := v.pass.output.lineWidth }
      v.text []).run v.pass with
  | ok cur p =>
    rw [hrun] at h
    have hstands : v.Stands w v.text [] cur p := ⟨(List.append_nil _).symm, hrun⟩
    cases hmode : cur.mode with
    | blockComment point =>
      simp only [Weaver.finish, hmode] at h
      cases h
      exact Or.inl ⟨cur, point, hstands, hmode, rfl⟩
    | _ =>
      simp only [Weaver.finish, hmode] at h
      cases h
  | error fault' q' =>
    rw [hrun] at h
    cases h
    obtain ⟨a, c, b, cur, p, n, d, htext, hadvance, hacts, hexpand, heq⟩ :=
      Weaver.exists_of_advance_error hrun
    obtain ⟨-, rfl, -⟩ := Weaver.actsOn?_eq_some_iff.mp hacts
    rw [List.append_nil] at hadvance hacts
    exact Or.inr ⟨_, cur.line, d, cur, p, heq, ⟨a, c :: b, ⟨htext, hadvance⟩, hacts⟩, hexpand⟩

end Visit

namespace Sample

/-- One segment is plain text, and the other includes a unit that nobody has. -/
def reader : Weaver Library where
  supplier := Library.supplier
  plan := .ofList [{ placeholder := ⟨"#pragma X", ""⟩, name := "x", snippet := "x();" },
    { placeholder := ⟨"#pragma Y", ""⟩, name := "y", snippet := "y();\n#include \"lost\"" }]
  limit := 2

def shelf : Library :=
  .ofList [("noise", "float p;"), ("deep", "/* */\n  #pragma Y")]

/-- Directives behind comments and inside them, a directive line on which a comment
begins, a comment that neither `/*/` nor `**` ends, and a line that fails. -/
def listed : SourceUnit :=
  ⟨"main", "/* #include \"a\" */\n/**/ #include \"a\"\n \t#include \"noise\" /*\nx //* y\n" ++
    "  #pragma X \r\n/*/ **\n*/#include \"a\"\n#include \"deep\"\n#include \"noise\""⟩

/-- The included unit names a placeholder, and its segment includes the lost unit. -/
def lost : Fault :=
  .nested ⟨"main", 8⟩ (.nested ⟨"deep", 2⟩
    (.unresolved "lost" ⟨"y[#pragma Y,1000]", 2⟩ (.notFound "lost")))

end Sample

end ShaderWeave
