import ShaderWeave.Proofs.LineReading
import ShaderWeave.Proofs.Progress

/-!
# Reading a line

The scan of a unit reads single characters and looks ahead to the end of the
line. Here its steps are put together to whole lines: a plain line is copied as
it stands, a directive line is expanded behind its white space, and what follows
on it is dropped.

## Main definitions

- `Weaver.advance`: read a part of a text with the rest of the text in view.
- `Pass.write`: a state with more text on its last line.
- `Cursor.past`: the cursor behind characters that have been copied.

## Main results

- `Weaver.advance_plain`, `Weaver.advance_directive`: a line without and with a
  directive.
- `Weaver.blank_of_advance_lineStart`: a directive may begin only behind white
  space.
- `Weaver.line_advance`: the line counter moves with the line feeds.
-/

namespace ShaderWeave

variable {σ : Type}

/-- The state with a text written behind all that was written before. -/
def Pass.write (p : Pass σ) (text : List Char) : Pass σ :=
  { p with output := p.output.pushText (String.ofList text) }

theorem Pass.write_nil (p : Pass σ) : p.write [] = p := by
  simp [Pass.write, Output.pushText]

theorem Pass.write_write (p : Pass σ) (a b : List Char) :
    (p.write a).write b = p.write (a ++ b) := by
  simp [Pass.write, Output.pushText, String.ofList_append, String.append_assoc]

/-- The cursor behind characters of one line that have been copied. -/
def Cursor.past (cur : Cursor) (text : List Char) : Cursor :=
  { cur with mode := text.foldl Mode.next cur.mode, column := cur.column + text.length }

theorem Cursor.past_nil (cur : Cursor) : cur.past [] = cur := rfl

theorem Cursor.past_append (cur : Cursor) (a b : List Char) :
    (cur.past a).past b = cur.past (a ++ b) := by
  simp [Cursor.past, Nat.add_assoc]

namespace Weaver

variable {w : Weaver σ} {descend : Location → SourceUnit → WeaveM σ Unit} {key : String}
  {cur : Cursor} {p q : Pass σ} {line rest : List Char}

/-- Read the characters `done`, which `rest` follows. -/
def advance (w : Weaver σ) (descend : Location → SourceUnit → WeaveM σ Unit) (key : String) :
    Cursor → List Char → List Char → WeaveM σ Cursor
  | cur, [], _ => pure cur
  | cur, c :: done, rest => do
    let cur ← w.step descend key cur c (done ++ rest)
    w.advance descend key cur done rest

theorem walk_append (cur : Cursor) (done rest : List Char) :
    w.walk descend key cur (done ++ rest) =
      w.advance descend key cur done rest >>= fun cur => w.walk descend key cur rest := by
  induction done generalizing cur with
  | nil => rfl
  | cons c done ih =>
    simp only [List.cons_append, walk, advance, bind_assoc]
    simp only [ih]

theorem walk_eq_advance (cur : Cursor) (text : List Char) :
    w.walk descend key cur text = w.advance descend key cur text [] := by
  have hwalk : w.walk descend key cur (text ++ []) =
      w.advance descend key cur text [] >>= fun cur => w.walk descend key cur [] :=
    walk_append cur text []
  rw [List.append_nil] at hwalk
  rw [hwalk]
  exact bind_pure _

theorem advance_append (cur : Cursor) (a b rest : List Char) :
    w.advance descend key cur (a ++ b) rest =
      w.advance descend key cur a (b ++ rest) >>= fun cur => w.advance descend key cur b rest := by
  induction a generalizing cur with
  | nil => rfl
  | cons c a ih =>
    simp only [List.cons_append, advance, bind_assoc, List.append_assoc]
    simp only [ih]

/-- Reading a part of a text makes changes only. -/
theorem advances_advance (hdescend : ∀ site unit, w.Advances (descend site unit)) (cur : Cursor)
    (done rest : List Char) : w.Advances (w.advance descend key cur done rest) := by
  induction done generalizing cur with
  | nil => exact advances_pure cur
  | cons c done ih => exact (advances_step hdescend key cur c _).bind fun cur => ih cur

/-! ## Copying -/

theorem run_copy {c : Char} (hc : c ≠ '\n') :
    (copy key cur c).run p = .ok (cur.past [c]) (p.write [c]) := by
  have hpush : p.output.push c = p.output.pushText (String.ofList [c]) := by
    simp [Output.push, Output.pushText]
  unfold copy
  rw [if_neg hc, EStateM.run_bind]
  simp only [WeaveM.onOutput, EStateM.run_modify, hpush]
  rfl

theorem step_busy (h : cur.mode.Busy) (c : Char) :
    w.step descend key cur c rest = copy key cur c := by
  unfold step
  split
  · next heq => exact absurd heq (h.2 _)
  · next heq => exact absurd heq h.1
  · rfl

theorem advance_busy (h : cur.mode.Busy) (hline : '\n' ∉ line) :
    (w.advance descend key cur line rest).run p = .ok (cur.past line) (p.write line) := by
  induction line generalizing cur p with
  | nil => rw [Cursor.past_nil, Pass.write_nil]; rfl
  | cons c line ih =>
    obtain ⟨hc, hrest⟩ := Text.oneLine_cons hline
    rw [advance, step_busy h, WeaveM.run_bind_eq_ok]
    refine ⟨cur.past [c], p.write [c], run_copy hc, ?_⟩
    rw [ih (h.next hc) hrest, Cursor.past_append, Pass.write_write]
    rfl

theorem foldl_next_blanks {blanks : List Char} (h : ∀ c ∈ blanks, Text.isSpace c) :
    blanks.foldl Mode.next .lineStart = .lineStart := by
  induction blanks with
  | nil => rfl
  | cons c blanks ih =>
    have hc : Mode.lineStart.next c = .lineStart := if_pos (h c List.mem_cons_self)
    rw [List.foldl_cons, hc]
    exact ih fun d hd => h d (List.mem_cons_of_mem _ hd)

theorem step_lineStart (h : cur.mode = .lineStart) {c : Char}
    (hread : Directive.read? w.plan (c :: rest) = none) :
    w.step descend key cur c rest = copy key cur c := by
  simp only [step, h, hread]

theorem read?_of_isSpace (plan : Plan) {c : Char} (hc : Text.isSpace c) (rest : List Char) :
    Directive.read? plan (c :: rest) = none :=
  if_pos (Or.inl hc)

theorem advance_blanks (h : cur.mode = .lineStart) (hblank : ∀ c ∈ line, Text.isSpace c)
    (hline : '\n' ∉ line) :
    (w.advance descend key cur line rest).run p = .ok (cur.past line) (p.write line) := by
  induction line generalizing cur p with
  | nil => rw [Cursor.past_nil, Pass.write_nil]; rfl
  | cons c line ih =>
    obtain ⟨hc, hlineRest⟩ := Text.oneLine_cons hline
    have hspace := hblank c List.mem_cons_self
    have hmode : (cur.past [c]).mode = .lineStart := by
      simp [Cursor.past, h, Mode.next, hspace]
    rw [advance, step_lineStart h (read?_of_isSpace _ hspace _), WeaveM.run_bind_eq_ok]
    refine ⟨cur.past [c], p.write [c], run_copy hc, ?_⟩
    rw [ih hmode (fun d hd => hblank d (List.mem_cons_of_mem _ hd)) hlineRest,
      Cursor.past_append, Pass.write_write]
    rfl

theorem busy_next_lineStart {c : Char} (hc : Text.isSpace c = false) :
    (Mode.lineStart.next c).Busy := by
  simp only [Mode.next, hc, Bool.false_eq_true, if_false]
  split_ifs <;> simp [Mode.Busy]

/-- Behind white space at the start of a line, a text that holds no directive is
copied to the end of the line. -/
theorem advance_behind_blanks (h : cur.mode = .lineStart) (hline : '\n' ∉ line)
    (hhead : ∀ c ∈ line.head?, Text.isSpace c = false)
    (hread : Directive.read? w.plan line = none) (hrest : Text.EndsLine rest) :
    (w.advance descend key cur line rest).run p = .ok (cur.past line) (p.write line) := by
  cases line with
  | nil => rw [Cursor.past_nil, Pass.write_nil]; rfl
  | cons c line =>
    obtain ⟨hc, hlineRest⟩ := Text.oneLine_cons hline
    have hnone : Directive.read? w.plan (c :: (line ++ rest)) = none := by
      rw [← List.cons_append, Directive.read?_append w.plan hline hrest]
      exact hread
    have hbusy : (cur.past [c]).mode.Busy := by
      simp only [Cursor.past, h, List.foldl_cons, List.foldl_nil]
      exact busy_next_lineStart (hhead c rfl)
    rw [advance, step_lineStart h hnone, WeaveM.run_bind_eq_ok]
    refine ⟨cur.past [c], p.write [c], run_copy hc, ?_⟩
    rw [advance_busy hbusy hlineRest, Cursor.past_append, Pass.write_write]
    rfl

theorem exists_blanks_append (line : List Char) :
    ∃ body, line = line.takeWhile Text.isSpace ++ body ∧ line.dropWhile Text.isSpace = body ∧
      (∀ c ∈ line.takeWhile Text.isSpace, Text.isSpace c) ∧
      ∀ c ∈ body.head?, Text.isSpace c = false := by
  refine ⟨line.dropWhile Text.isSpace, List.takeWhile_append_dropWhile.symm, rfl, ?_, ?_⟩
  · intro c hc
    exact List.mem_takeWhile_imp hc
  · intro c hc
    have h := List.head?_dropWhile_not Text.isSpace line
    rw [Option.mem_def.mp hc] at h
    simpa using h

/-- A plain line is copied as it stands. -/
theorem advance_plain {commented : Bool} (h : cur.mode = .atStart commented)
    (hline : '\n' ∉ line) (hplain : Line.directive? w.plan commented line = none)
    (hrest : Text.EndsLine rest) :
    (w.advance descend key cur line rest).run p = .ok (cur.past line) (p.write line) := by
  cases commented with
  | true =>
    have hbusy : cur.mode.Busy := by
      rw [h]
      simp [Mode.atStart, Mode.Busy]
    exact advance_busy hbusy hline
  | false =>
    have hmode : cur.mode = .lineStart := h
    -- a directive can begin only where the white space in front ends
    obtain ⟨body, hsplit, hbody, hblank, hhead⟩ := exists_blanks_append line
    have hread : Directive.read? w.plan body = none := by
      rw [← hbody]
      exact hplain
    generalize line.takeWhile Text.isSpace = lead at hsplit hblank
    subst hsplit
    obtain ⟨hlead, hbodyLine⟩ := Text.oneLine_append hline
    have hmode' : (cur.past lead).mode = .lineStart := by
      simp [Cursor.past, hmode, foldl_next_blanks hblank]
    rw [advance_append, WeaveM.run_bind_eq_ok]
    refine ⟨_, _, advance_blanks hmode hblank hlead, ?_⟩
    rw [advance_behind_blanks hmode' hbodyLine hhead hread hrest, Cursor.past_append,
      Pass.write_write]

/-! ## Directive lines -/

theorem advance_directiveMode {replaced : Bool} (h : cur.mode = .directive replaced)
    (hline : '\n' ∉ line) : w.advance descend key cur line rest = pure cur := by
  induction line with
  | nil => rfl
  | cons c line ih =>
    obtain ⟨hc, hlineRest⟩ := Text.oneLine_cons hline
    have hstep : w.step descend key cur c (line ++ rest) = pure cur := by
      simp only [step, h, hc, if_false]
    rw [advance, hstep, pure_bind, ih hlineRest]

/-- An expansion leaves the cursor on the directive line, which counts as dealt
with. -/
theorem exists_mode_of_expand_ok {d : Directive} {cur' : Cursor}
    (h : (w.expand descend key cur d).run p = .ok cur' q) :
    ∃ replaced, cur' = { cur with mode := .directive replaced, line := cur.line + 1 } := by
  unfold expand at h
  cases d with
  | inclusion path =>
    obtain ⟨replaced, _, _, h⟩ := WeaveM.run_bind_eq_ok.mp h
    cases h
    exact ⟨replaced, rfl⟩
  | placeholder name =>
    obtain ⟨_, _, _, h⟩ := WeaveM.run_bind_eq_ok.mp h
    cases h
    exact ⟨true, rfl⟩

theorem step_directive (h : cur.mode = .lineStart) {c : Char} {d : Directive}
    (hread : Directive.read? w.plan (c :: rest) = some d) :
    w.step descend key cur c rest = w.expand descend key cur d := by
  simp only [step, h, hread]

/-- A directive is expanded behind its white space, and the rest of its line is
dropped. -/
theorem advance_directive (h : cur.mode = .lineStart) (hline : '\n' ∉ line) {d : Directive}
    (hd : Line.directive? w.plan false line = some d) (hrest : Text.EndsLine rest) :
    (w.advance descend key cur line rest).run p =
      (w.expand descend key (cur.past (line.takeWhile Text.isSpace)) d).run
        (p.write (line.takeWhile Text.isSpace)) := by
  obtain ⟨body, hsplit, hbody, hblank, hhead⟩ := exists_blanks_append line
  have hread : Directive.read? w.plan body = some d := by
    rw [← hbody]
    exact hd
  generalize line.takeWhile Text.isSpace = lead at hsplit hblank
  subst hsplit
  obtain ⟨hlead, hbodyLine⟩ := Text.oneLine_append hline
  have hmode : (cur.past lead).mode = .lineStart := by
    simp [Cursor.past, h, foldl_next_blanks hblank]
  have hcopied : (w.advance descend key cur lead (body ++ rest)).run p =
      .ok (cur.past lead) (p.write lead) := advance_blanks h hblank hlead
  rw [advance_append, EStateM.run_bind, hcopied]
  cases body with
  | nil => cases hread
  | cons c body =>
    have hsome : Directive.read? w.plan (c :: (body ++ rest)) = some d := by
      rw [← List.cons_append, Directive.read?_append w.plan hbodyLine hrest]
      exact hread
    simp only [advance, step_directive hmode hsome]
    rw [EStateM.run_bind]
    cases hexpand : (w.expand descend key (cur.past lead) d).run (p.write lead) with
    | error fault q => rfl
    | ok cur' q =>
      obtain ⟨replaced, rfl⟩ := exists_mode_of_expand_ok hexpand
      -- the rest of the line is passed over in directive mode
      simp only
      rw [advance_directiveMode rfl (Text.oneLine_cons hbodyLine).2]
      rfl

/-- A character that leaves the scan at a place where a directive may begin was
read at such a place, and is white space. -/
theorem isSpace_of_step_lineStart {c : Char} (hc : c ≠ '\n') {cur' : Cursor}
    (h : (w.step descend key cur c rest).run p = .ok cur' q) (hmode : cur'.mode = .lineStart) :
    cur.mode = .lineStart ∧ Text.isSpace c := by
  by_cases hbusy : cur.mode.Busy
  · rw [step_busy hbusy, run_copy hc] at h
    cases h
    exact absurd hmode (hbusy.next hc).1
  · by_cases hstart : cur.mode = .lineStart
    · refine ⟨hstart, ?_⟩
      cases hread : Directive.read? w.plan (c :: rest) with
      | some d =>
        rw [step_directive hstart hread] at h
        obtain ⟨replaced, rfl⟩ := exists_mode_of_expand_ok h
        cases hmode
      | none =>
        rw [step_lineStart hstart hread, run_copy hc] at h
        cases h
        by_contra hspace
        simp only [Cursor.past, hstart, List.foldl_cons, List.foldl_nil] at hmode
        exact (busy_next_lineStart (by simpa using hspace)).1 hmode
    · obtain ⟨replaced, hdir⟩ : ∃ replaced, cur.mode = .directive replaced := by
        by_contra hnone
        exact hbusy ⟨hstart, fun replaced heq => hnone ⟨replaced, heq⟩⟩
      simp only [step, hdir, hc, if_false] at h
      cases h
      rw [hdir] at hmode
      cases hmode

/-- A directive may begin only behind white space at the start of a line. -/
theorem blank_of_advance_lineStart {done : List Char} {cur' : Cursor} (hdone : '\n' ∉ done)
    (h : (w.advance descend key cur done rest).run p = .ok cur' q)
    (hmode : cur'.mode = .lineStart) :
    cur.mode = .lineStart ∧ ∀ c ∈ done, Text.isSpace c := by
  induction done generalizing cur p with
  | nil =>
    cases h
    exact ⟨hmode, by simp⟩
  | cons c done ih =>
    obtain ⟨hc, hdoneRest⟩ := Text.oneLine_cons hdone
    obtain ⟨cur₁, p₁, hstep, h⟩ := WeaveM.run_bind_eq_ok.mp h
    obtain ⟨hmode₁, hblank⟩ := ih hdoneRest h
    obtain ⟨hstart, hspace⟩ := isSpace_of_step_lineStart hc hstep hmode₁
    exact ⟨hstart, List.forall_mem_cons.mpr ⟨hspace, hblank⟩⟩

/-! ## Line ends -/

theorem step_lineFeed (h : ∀ replaced, cur.mode ≠ .directive replaced) :
    (w.step descend key cur '\n' rest).run p =
      .ok { mode := cur.mode.next '\n', line := cur.line + 1, column := 0 }
        { p with output := p.output.endLine ⟨key, cur.line + 1⟩ } := by
  have hcopy : w.step descend key cur '\n' rest = copy key cur '\n' := by
    by_cases hstart : cur.mode = .lineStart
    · exact step_lineStart hstart (read?_of_isSpace _ (by decide) _)
    · exact step_busy ⟨hstart, h⟩ '\n'
  rw [hcopy]
  rfl

/-- The end of a directive line ends the output line if the expansion has left
one begun, or if there was no expansion. -/
theorem step_lineFeed_directive {replaced : Bool} (h : cur.mode = .directive replaced) :
    (w.step descend key cur '\n' rest).run p =
      .ok { cur with mode := .lineStart, column := 0 }
        { p with
          output :=
            if p.output.isMidLine || !replaced then p.output.endLine ⟨key, cur.line⟩
            else p.output } := by
  have hleave : w.step descend key cur '\n' rest = leaveDirective key replaced cur := by
    simp only [step, h, if_true]
  rw [hleave]
  rfl

/-! ## The line counter -/

/-- How far the line counter is ahead: by one on a directive line. -/
def ahead (m : Mode) : Nat :=
  match m with
  | .directive _ => 1
  | _ => 0

theorem ahead_eq_zero {m : Mode} (h : ∀ replaced, m ≠ .directive replaced) : ahead m = 0 := by
  cases m with
  | directive replaced => exact absurd rfl (h replaced)
  | _ => rfl

theorem line_copy {c : Char} {cur' : Cursor} (h : (copy key cur c).run p = .ok cur' q) :
    cur'.line = cur.line + [c].count '\n' ∧ cur'.mode = cur.mode.next c := by
  unfold copy at h
  by_cases hc : c = '\n'
  · rw [if_pos hc] at h
    cases h
    simp [hc]
  · rw [if_neg hc] at h
    cases h
    simp [hc]

theorem line_step {c : Char} {cur' : Cursor}
    (h : (w.step descend key cur c rest).run p = .ok cur' q) :
    cur'.line + ahead cur.mode = cur.line + [c].count '\n' + ahead cur'.mode := by
  by_cases hdir : ∃ replaced, cur.mode = .directive replaced
  · obtain ⟨replaced, hdir⟩ := hdir
    by_cases hc : c = '\n'
    · subst hc
      rw [step_lineFeed_directive hdir] at h
      cases h
      simp [hdir, ahead]
    · simp only [step, hdir, hc, if_false] at h
      cases h
      simp [hc]
  · have hne : ∀ replaced, cur.mode ≠ .directive replaced :=
      fun replaced heq => hdir ⟨replaced, heq⟩
    have hcopy : w.step descend key cur c rest = copy key cur c →
        cur'.line + ahead cur.mode = cur.line + [c].count '\n' + ahead cur'.mode := by
      intro heq
      rw [heq] at h
      obtain ⟨hline, hmode⟩ := line_copy h
      rw [hline, hmode, ahead_eq_zero hne, ahead_eq_zero (Mode.next_ne_directive hne)]
    by_cases hstart : cur.mode = .lineStart
    · cases hread : Directive.read? w.plan (c :: rest) with
      | none => exact hcopy (step_lineStart hstart hread)
      | some d =>
        rw [step_directive hstart hread] at h
        obtain ⟨replaced, rfl⟩ := exists_mode_of_expand_ok h
        have hc : c ≠ '\n' := by
          rintro rfl
          rw [read?_of_isSpace _ (by decide)] at hread
          cases hread
        simp [hstart, ahead, hc]
    · exact hcopy (step_busy ⟨hstart, hne⟩ c)

/-- The line counter moves with the line feeds that are read. -/
theorem line_advance {done : List Char} {cur' : Cursor}
    (h : (w.advance descend key cur done rest).run p = .ok cur' q) :
    cur'.line + ahead cur.mode = cur.line + done.count '\n' + ahead cur'.mode := by
  induction done generalizing cur p with
  | nil =>
    cases h
    simp
  | cons c done ih =>
    obtain ⟨cur₁, p₁, hstep, h⟩ := WeaveM.run_bind_eq_ok.mp h
    have hfirst := line_step hstep
    have hothers := ih h
    have hcount : (c :: done).count '\n' = [c].count '\n' + done.count '\n' := by
      rw [← List.count_append]
      rfl
    omega

/-- A unit ends with success just if it does not end inside a block comment. It
has then stopped on its last line. -/
theorem finish_eq_ok : (finish key cur).run p = .ok () q ↔
    cur.mode.isComment = false ∧
      q = { p with output := p.output.flush ⟨key, cur.line + 1 - ahead cur.mode⟩ } := by
  unfold finish
  cases hmode : cur.mode with
  | blockComment point =>
    constructor
    · intro h
      cases h
    · rintro ⟨h, _⟩
      cases h
  | _ =>
    constructor
    · intro h
      cases h
      exact ⟨rfl, rfl⟩
    · rintro ⟨_, rfl⟩
      rfl

end Weaver

end ShaderWeave
