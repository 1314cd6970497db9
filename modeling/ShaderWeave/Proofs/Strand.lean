import ShaderWeave.Proofs.Growth

/-!
# The lines of a visit

Every line of a unit is dealt with in turn. A plain line, and a repeated
inclusion, leave one row of their own; any other directive leaves the rows of
the visits it leads to. At the start of each line nobody owns what stands on the
output line, and from the second line on nothing stands there. So a visit that
ends with success has added whole rows, and the visits it leads to had what they
need to do so as well.

## Main definitions

- `Visit.AtLine`: the scan of a visit begins a line.
- `Visit.Retains`: what a line itself leaves on the output.
- `Visit.Deals`: a line is dealt with.

## Main results

- `Visit.Stands.before_directive`: a scan that begins a directive line comes to its directive.
- `Visit.AtLine.next`, `Visit.AtLine.last`: what one line preserves.
- `Visit.sound`: every visit that ends with success adds whole rows.
-/

namespace ShaderWeave

variable {σ : Type}

namespace Visit

/-- The scan begins line `j` in the state `q`, with the output laid out as `s`:
nobody owns the tail, which is white space on the first line and empty on all
others. -/
structure AtLine (v : Visit σ) (w : Weaver σ) (j : Nat) (q : Pass σ) (s : Sheet) : Prop where
  stands : v.Stands w (Text.before v.text j) (Text.remaining v.text j)
    { mode := .atStart (Line.commentedAt w.plan v.text j), line := j, column := s.tail.length } q
  output : s.output = q.output
  fresh : s.Fresh
  margin : 0 < j → s.tail = []

/-- What line `j` itself leaves on the output, if the scan begins it in the state
`q`: a plain line leaves all of it, and an inclusion whose text came before
leaves the white space in front of it. -/
def Retains (v : Visit σ) (w : Weaver σ) (j : Nat) (q : Pass σ) (line content : List Char) :
    Prop :=
  Line.directiveAt? w.plan v.text j = none ∧ content = line ∨
    ∃ path, Line.directiveAt? w.plan v.text j = some (.inclusion (some path)) ∧
      (w.supplier.request q.stock path).1 = .repeated ∧ content = line.takeWhile Text.isSpace

/-- Line `j` leaves a row of its own and leads to no visit. A line without
content at the end of the unit leaves no row. -/
def LeavesRow (v : Visit σ) (w : Weaver σ) (j : Nat) (q : Pass σ) (s t : Sheet) : Prop :=
  ∃ line content, (Text.lines v.text)[j]? = some line ∧ v.Retains w j q line content ∧
    (∀ u, ¬ v.Enters w j u) ∧ t.settled = s.settled ++
      if j + 1 = (Text.lines v.text).length ∧ s.tail ++ content = [] then []
      else [⟨s.tail ++ content, ⟨v.unit.key, j + 1⟩⟩]

/-- What is known of the sheets before and after line `j`: rows without directives
have been added, by the line itself or by the visits it leads to. -/
structure Deals (v : Visit σ) (w : Weaver σ) (j : Nat) (q : Pass σ) (s t : Sheet) : Prop where
  grows : s.Grows w.plan (Line.commentedAt w.plan v.text j)
    (Line.commentedAt w.plan v.text (j + 1)) t
  rows : v.LeavesRow w j q s t ∨
    Line.directiveAt? w.plan v.text j ≠ none ∧ w.Fills (v.Enters w j) s t

variable {v u : Visit σ} {w : Weaver σ} {j : Nat} {p q : Pass σ} {s : Sheet}

theorem atLine_zero (hs : s.output = v.pass.output) (hfresh : s.Fresh) :
    v.AtLine w 0 v.pass s := by
  refine ⟨?_, hs, hfresh, fun h => absurd h (Nat.lt_irrefl 0)⟩
  have hstart := v.stands_start w
  rw [← hs, s.lineWidth_output] at hstart
  simpa [Mode.atStart] using hstart

theorem AtLine.begins (h : v.AtLine w j q s) : v.Begins w j q :=
  ⟨_, h.stands⟩

/-- A line begins inside a block comment only behind other lines. -/
theorem AtLine.tail_eq_nil (h : v.AtLine w j q s)
    (hcommented : Line.commentedAt w.plan v.text j = true) : s.tail = [] := by
  apply h.margin
  rcases Nat.eq_zero_or_pos j with rfl | hpos
  · simp at hcommented
  · exact hpos

/-- The unit goes on behind the line, or ends with it. -/
theorem remaining_eq {line : List Char} (h : (Text.lines v.text)[j]? = some line) :
    ∃ rest, Text.EndsLine rest ∧ Text.remaining v.text j = line ++ rest := by
  have hj := (List.getElem?_eq_some_iff.mp h).1
  by_cases hlt : j + 1 < (Text.lines v.text).length
  · exact ⟨_, Or.inr ⟨_, rfl⟩, Text.remaining_eq_cons h hlt⟩
  · refine ⟨[], Or.inl rfl, ?_⟩
    rw [Text.remaining_eq_last h (by omega), List.append_nil]

/-- A scan that begins a directive line comes to stand at the directive, as there is nothing
but white space in front of it. -/
theorem Stands.before_directive {line : List Char} {cur : Cursor} {d : Directive}
    (h : v.Stands w (Text.before v.text j) (Text.remaining v.text j) cur q)
    (hmode : cur.mode = .lineStart) (hline : (Text.lines v.text)[j]? = some line)
    (hd : Line.directive? w.plan false line = some d) :
    ∃ done rest, v.Stands w done rest (cur.past (line.takeWhile Text.isSpace))
        (q.write (line.takeWhile Text.isSpace)) ∧
      (cur.past (line.takeWhile Text.isSpace)).mode = .lineStart ∧
      Directive.read? w.plan rest = some d := by
  obtain ⟨rest, hends, hremaining⟩ := remaining_eq hline
  obtain ⟨body, hsplit, hbody, hblank, -⟩ := Weaver.exists_blanks_append line
  have honeLine : '\n' ∉ line := Text.oneLine_of_mem_lines (List.mem_of_getElem? hline)
  have hread : Directive.read? w.plan body = some d := by
    rw [← hbody]
    exact hd
  generalize line.takeWhile Text.isSpace = lead at hsplit hblank ⊢
  subst hsplit
  rw [hremaining, List.append_assoc] at h
  obtain ⟨hlead, hbodyLine⟩ := Text.oneLine_append honeLine
  refine ⟨_, _, h.append (Weaver.advance_blanks hmode hblank hlead), ?_, ?_⟩
  · simp only [Cursor.past, hmode]
    exact Weaver.foldl_next_blanks hblank
  · rw [Directive.read?_append w.plan hbodyLine hends, hread]

/-- A directive that is found on a line stands behind the white space of the line. -/
theorem AtLine.of_read? {line done rest : List Char} {cur : Cursor} {q' : Pass σ} {d : Directive}
    (h : v.AtLine w j q s) (hline : (Text.lines v.text)[j]? = some line)
    (hstands : v.Stands w done rest cur q') (hmode : cur.mode = .lineStart) (hcur : cur.line = j)
    (hread : Directive.read? w.plan rest = some d) :
    Line.directiveAt? w.plan v.text j = some d ∧
      cur = ({ line := j, column := s.tail.length } : Cursor).past
        (line.takeWhile Text.isSpace) ∧
      q' = q.write (line.takeWhile Text.isSpace) := by
  have hcount : done.count '\n' = j := (hstands.count_eq hmode).trans hcur
  obtain ⟨_, front, hdone, hfront, hremaining⟩ := Text.exists_before_append hstands.1
  rw [hcount] at hdone hremaining
  -- the scan has stood at the start of the line, and only white space lies in between
  rw [hdone] at hstands
  obtain ⟨cur₀, q₀, hstart, hadvance⟩ := hstands.split
  rw [← hremaining] at hstart
  obtain ⟨rfl, rfl⟩ := h.stands.unique hstart
  obtain ⟨hstartMode, hblank⟩ := Weaver.blank_of_advance_lineStart hfront hadvance hmode
  rw [Weaver.advance_blanks hstartMode hblank hfront] at hadvance
  cases hadvance
  have hcommented : Line.commentedAt w.plan v.text j = false := by
    cases hc : Line.commentedAt w.plan v.text j with
    | false => rfl
    | true =>
      rw [hc] at hstartMode
      cases hstartMode
  -- so the directive is the one that the line consists of
  obtain ⟨rest', hends, hline'⟩ := remaining_eq hline
  obtain ⟨body, rfl, rfl⟩ := hends.cut hfront (hline'.symm.trans hremaining)
  have hbody : '\n' ∉ body :=
    (Text.oneLine_append (Text.oneLine_of_mem_lines (List.mem_of_getElem? hline))).2
  rw [Directive.read?_append w.plan hbody hends] at hread
  obtain ⟨hdirective, htake⟩ := Line.directive?_of_read? hblank hread
  rw [htake]
  refine ⟨?_, ?_, rfl⟩
  · rw [Line.directiveAt?_eq hline, hcommented, hdirective]
  · rw [hcommented]
    rfl

theorem AtLine.calls_of_enters {line : List Char} (h : v.AtLine w j q s)
    (hline : (Text.lines v.text)[j]? = some line) (hu : v.Enters w j u) :
    ∃ d, Line.directiveAt? w.plan v.text j = some d ∧
      w.Calls v.room v.unit.key
        (({ line := j, column := s.tail.length } : Cursor).past (line.takeWhile Text.isSpace))
        (q.write (line.takeWhile Text.isSpace)) d u := by
  obtain ⟨done, rest, cur, q', d, hstands, hmode, hcur, hread, hcalls⟩ := hu
  obtain ⟨hd, rfl, rfl⟩ := h.of_read? hline hstands hmode hcur hread
  exact ⟨d, hd, hcalls⟩

/-- Conversely, what the directive of the line leads to is entered from the line. -/
theorem AtLine.enters_of_calls {line : List Char} {d : Directive} (h : v.AtLine w j q s)
    (hline : (Text.lines v.text)[j]? = some line)
    (hd : Line.directive? w.plan (Line.commentedAt w.plan v.text j) line = some d)
    (hcalls : w.Calls v.room v.unit.key
      (({ line := j, column := s.tail.length } : Cursor).past (line.takeWhile Text.isSpace))
      (q.write (line.takeWhile Text.isSpace)) d u) : v.Enters w j u := by
  have hcommented := Line.commented_eq_false hd
  have hstands := h.stands
  rw [hcommented] at hstands hd
  obtain ⟨done, rest, hbehind, hmode, hread⟩ := hstands.before_directive rfl hline hd
  exact ⟨done, rest, _, _, d, hbehind, hmode, rfl, hread, hcalls⟩

theorem AtLine.enters_iff_calls {line : List Char} {d : Directive} (h : v.AtLine w j q s)
    (hline : (Text.lines v.text)[j]? = some line)
    (hd : Line.directiveAt? w.plan v.text j = some d) (u : Visit σ) :
    v.Enters w j u ↔ w.Calls v.room v.unit.key
      (({ line := j, column := s.tail.length } : Cursor).past (line.takeWhile Text.isSpace))
      (q.write (line.takeWhile Text.isSpace)) d u := by
  constructor
  · intro hu
    obtain ⟨d', hd', hcalls⟩ := h.calls_of_enters hline hu
    rw [hd] at hd'
    cases hd'
    exact hcalls
  · intro hcalls
    rw [Line.directiveAt?_eq hline] at hd
    exact h.enters_of_calls hline hd hcalls

/-! ## Reading a line -/

/-- What is known at the end of line `j`, in front of its line feed. -/
inductive AtLineEnd (v : Visit σ) (w : Weaver σ) (j : Nat) (q : Pass σ) (s : Sheet)
    (cur : Cursor) (q' : Pass σ) : Prop where
  /-- The line leaves a row of its own. -/
  | retained {line content : List Char} (line_eq : (Text.lines v.text)[j]? = some line)
    (retains : v.Retains w j q line content) (enters : ∀ u, ¬ v.Enters w j u)
    (oneLine : '\n' ∉ content) (output : (s.write content oneLine).output = q'.output)
    (plain : Line.directive? w.plan (Line.commentedAt w.plan v.text j) (s.tail ++ content) = none)
    (comment : Line.commentAfter (Line.commentedAt w.plan v.text j) (s.tail ++ content) =
      Line.commentedAt w.plan v.text (j + 1))
    (cursor : (∀ replaced, cur.mode ≠ .directive replaced) ∧ cur.line = j ∧
        cur.mode.isComment = Line.commentedAt w.plan v.text (j + 1) ∨
      cur.mode = .directive false ∧ cur.line = j + 1 ∧
        Line.commentedAt w.plan v.text (j + 1) = false)
  /-- The line has been replaced by the rows of the visits it leads to. -/
  | expanded {t : Sheet} (directive : Line.directiveAt? w.plan v.text j ≠ none)
    (comment : Line.commentedAt w.plan v.text j = false)
    (comment' : Line.commentedAt w.plan v.text (j + 1) = false)
    (mode : cur.mode = .directive true) (line : cur.line = j + 1)
    (output : t.output = q'.output) (owned : t.Owned) (fills : w.Fills (v.Enters w j) s t)

theorem AtLine.plain_lineEnd {line : List Char} (h : v.AtLine w j q s)
    (hline : (Text.lines v.text)[j]? = some line)
    (hplain : Line.directiveAt? w.plan v.text j = none) :
    v.AtLineEnd w j q s
      (({ mode := .atStart (Line.commentedAt w.plan v.text j), line := j,
          column := s.tail.length } : Cursor).past line) (q.write line) := by
  have honeLine : '\n' ∉ line := Text.oneLine_of_mem_lines (List.mem_of_getElem? hline)
  have hnone : Line.directive? w.plan (Line.commentedAt w.plan v.text j) line = none := by
    rw [← Line.directiveAt?_eq hline]
    exact hplain
  have hnext : Line.commentedAt w.plan v.text (j + 1) =
      Line.commentAfter (Line.commentedAt w.plan v.text j) line := by
    rw [Line.commentedAt_succ hline, Line.commentedNext, hnone]
    rfl
  have hmode : ∀ replaced, line.foldl Mode.next
      (.atStart (Line.commentedAt w.plan v.text j)) ≠ .directive replaced :=
    Mode.foldl_next_ne_directive (Mode.atStart_ne_directive _) line
  -- the white space in front of a nested unit neither hides nor makes a directive
  have hrow : Line.directive? w.plan (Line.commentedAt w.plan v.text j) (s.tail ++ line) = none ∧
      Line.commentAfter (Line.commentedAt w.plan v.text j) (s.tail ++ line) =
        Line.commentAfter (Line.commentedAt w.plan v.text j) line := by
    cases hc : Line.commentedAt w.plan v.text j with
    | true =>
      rw [h.tail_eq_nil hc]
      exact ⟨rfl, rfl⟩
    | false =>
      rw [hc] at hnone
      rw [Line.directive?_blanks h.fresh.2, Line.commentAfter_blanks h.fresh.2]
      exact ⟨hnone, rfl⟩
  refine .retained hline (Or.inl ⟨hplain, rfl⟩) ?_ honeLine ?_ hrow.1 (hrow.2.trans hnext.symm)
    (Or.inl ⟨hmode, rfl, ?_⟩)
  · intro u hu
    obtain ⟨d, hd, _⟩ := h.calls_of_enters hline hu
    rw [hplain] at hd
    cases hd
  · rw [s.output_write honeLine, h.output]
    rfl
  · exact (Mode.isComment_foldl_atStart _ honeLine).trans hnext.symm

theorem AtLine.directive_lineEnd {line : List Char} {d : Directive} {cur' : Cursor} {q' : Pass σ}
    (hsound : ∀ u : Visit σ, u.room < v.room → u.Sound w) (h : v.AtLine w j q s)
    (hline : (Text.lines v.text)[j]? = some line)
    (hd : Line.directiveAt? w.plan v.text j = some d)
    (hexpand : (w.expand (w.below v.room) v.unit.key
      (({ line := j, column := s.tail.length } : Cursor).past (line.takeWhile Text.isSpace)) d).run
        (q.write (line.takeWhile Text.isSpace)) = .ok cur' q') :
    v.AtLineEnd w j q s cur' q' := by
  have honeLine : '\n' ∉ line := Text.oneLine_of_mem_lines (List.mem_of_getElem? hline)
  have hd' : Line.directive? w.plan (Line.commentedAt w.plan v.text j) line = some d := by
    rw [← Line.directiveAt?_eq hline]
    exact hd
  have hcommented := Line.commented_eq_false hd'
  have hnext : Line.commentedAt w.plan v.text (j + 1) = false := by
    rw [Line.commentedAt_succ hline, Line.commentedNext, hd']
    rfl
  have hread : Directive.read? w.plan (line.dropWhile Text.isSpace) = some d := by
    rw [hcommented] at hd'
    exact hd'
  have henters := h.enters_iff_calls hline hd
  have hblank : ∀ c ∈ line.takeWhile Text.isSpace, Text.isSpace c :=
    fun c hc => List.mem_takeWhile_imp hc
  have hlead : '\n' ∉ line.takeWhile Text.isSpace := fun hmem =>
    honeLine (List.takeWhile_subset _ hmem)
  generalize hleadEq : line.takeWhile Text.isSpace = lead at hexpand henters hblank hlead
  -- the expansion begins behind the white space of the line, which nobody owns either
  have hs : (s.write lead hlead).output = (q.write lead).output := by
    rw [s.output_write hlead, h.output]
    rfl
  have hfresh := h.fresh.write hblank hlead
  have hsettled := s.settled_write h.fresh.1 hlead
  rcases Weaver.expand_cases hsound hs hfresh hread hexpand with
    ⟨path, rfl, hreply, rfl, houtput, hnone⟩ | ⟨t, rfl, houtput, howned, hfills⟩
  · refine .retained hline (Or.inr ⟨path, hd, hreply, hleadEq.symm⟩)
      (fun u hu => hnone u ((henters u).mp hu)) hlead houtput
      (Line.directive?_of_blank hfresh.2 _) ?_
      (Or.inr ⟨rfl, rfl, hnext⟩)
    have hafter := Line.commentAfter_blanks hfresh.2 []
    rw [List.append_nil] at hafter
    rw [hcommented, hnext]
    exact hafter
  · refine .expanded (by simp [hd]) hcommented hnext rfl rfl houtput howned ?_
    exact hfills.congr henters hsettled rfl

/-- A scan that ends comes from the start of a line to the end of it. -/
theorem AtLine.lineEnd {line rest : List Char}
    (hsound : ∀ u : Visit σ, u.room < v.room → u.Sound w) (hends : v.Ends w p)
    (h : v.AtLine w j q s) (hline : (Text.lines v.text)[j]? = some line)
    (hrest : Text.EndsLine rest) (hremaining : Text.remaining v.text j = line ++ rest) :
    ∃ cur' q', v.Stands w (Text.before v.text j ++ line) rest cur' q' ∧
      v.AtLineEnd w j q s cur' q' := by
  have honeLine : '\n' ∉ line := Text.oneLine_of_mem_lines (List.mem_of_getElem? hline)
  have hstands := h.stands
  rw [hremaining] at hstands
  obtain ⟨_, _, hwalk, _⟩ := hends.walk hstands
  rw [Weaver.walk_append, WeaveM.run_bind_eq_ok] at hwalk
  obtain ⟨cur', q', hadvance, _⟩ := hwalk
  refine ⟨cur', q', hstands.append hadvance, ?_⟩
  cases hd : Line.directiveAt? w.plan v.text j with
  | none =>
    have hplain := hd
    rw [Line.directiveAt?_eq hline] at hplain
    rw [Weaver.advance_plain rfl honeLine hplain hrest] at hadvance
    cases hadvance
    exact h.plain_lineEnd hline hd
  | some d =>
    have hd' := hd
    rw [Line.directiveAt?_eq hline] at hd'
    have hcommented := Line.commented_eq_false hd'
    rw [hcommented] at hadvance hd'
    rw [Weaver.advance_directive rfl honeLine hd' hrest] at hadvance
    exact h.directive_lineEnd hsound hline hd hadvance

/-! ## Leaving a line -/

theorem Deals.of_fills {t : Sheet} (hdirective : Line.directiveAt? w.plan v.text j ≠ none)
    (hcomment : Line.commentedAt w.plan v.text j = false)
    (hcomment' : Line.commentedAt w.plan v.text (j + 1) = false)
    (hfills : w.Fills (v.Enters w j) s t) : v.Deals w j q s t := by
  refine ⟨?_, Or.inr ⟨hdirective, hfills⟩⟩
  rw [hcomment, hcomment']
  exact hfills.grows

/-- The line feed behind a line settles the line. -/
theorem AtLineEnd.lineFeed {cur : Cursor} {q' : Pass σ} (h : v.AtLineEnd w j q s cur q')
    (hfresh : s.Fresh) (hlt : j + 1 < (Text.lines v.text).length) (rest : List Char) :
    ∃ (q₁ : Pass σ) (t : Sheet), (w.step (w.below v.room) v.unit.key cur '\n' rest).run q' =
        .ok { mode := .atStart (Line.commentedAt w.plan v.text (j + 1)), line := j + 1,
              column := 0 } q₁ ∧
      t.output = q₁.output ∧ t.tail = [] ∧ v.Deals w j q s t := by
  cases h with
  | @retained line content hline hretains henters honeLine houtput hplain hcomment hcursor =>
    refine ⟨{ q' with output := q'.output.endLine ⟨v.unit.key, j + 1⟩ },
      (s.write content honeLine).endLine ⟨v.unit.key, j + 1⟩, ?_, ?_, rfl, ?_⟩
    · rcases hcursor with ⟨hmode, rfl, hopen⟩ | ⟨hmode, hcur, hopen⟩
      · rw [Weaver.step_lineFeed hmode, Mode.next_lineFeed hmode, hopen]
      · rw [Weaver.step_lineFeed_directive hmode, hcur, hopen]
        simp [Mode.atStart]
    · rw [Sheet.output_endLine, houtput]
    · have hsettled : ((s.write content honeLine).endLine ⟨v.unit.key, j + 1⟩).settled =
          s.settled ++ [⟨s.tail ++ content, ⟨v.unit.key, j + 1⟩⟩] := by
        have hnone : (s.write content honeLine).owner = none := hfresh.1
        rw [Sheet.settled_endLine hnone, s.settled_write hfresh.1]
        rfl
      refine ⟨?_, Or.inl ⟨line, content, hline, hretains, henters, ?_⟩⟩
      · rw [← hcomment]
        exact Sheet.grows_of_row hsettled hplain
      · rw [if_neg (by omega), hsettled]
  | @expanded t hdirective hcomment hcomment' hmode hcur houtput howned hfills =>
    -- the expansion may have left a line begun, and then the line feed ends it
    obtain ⟨t', ht', htail, hsettled⟩ := Sheet.exists_ended howned ⟨v.unit.key, cur.line⟩
    rw [houtput] at ht'
    refine ⟨{ q' with output := t'.output }, t', ?_, rfl, htail, ?_⟩
    · rw [Weaver.step_lineFeed_directive hmode, hcomment', hcur, ht', hcur]
      simp [Mode.atStart]
    · exact .of_fills hdirective hcomment hcomment' (hfills.congr (fun _ => Iff.rfl) rfl hsettled)

/-- The end of the unit settles its last line, and all block comments have ended. -/
theorem AtLineEnd.finish {cur : Cursor} {q' : Pass σ} (h : v.AtLineEnd w j q s cur q')
    (hfresh : s.Fresh) (hlast : j + 1 = (Text.lines v.text).length)
    (hfinish : (Weaver.finish v.unit.key cur).run q' = .ok () p) :
    ∃ t : Sheet, t.output = p.output ∧ t.Owned ∧
      Line.commentedAt w.plan v.text (j + 1) = false ∧ v.Deals w j q s t := by
  cases h with
  | @retained line content hline hretains henters honeLine houtput hplain hcomment hcursor =>
    obtain ⟨hclosed, rfl⟩ := Weaver.finish_eq_ok.mp hfinish
    -- on a directive line the counter has moved on already
    have hline' : cur.line + 1 - Weaver.ahead cur.mode = j + 1 := by
      rcases hcursor with ⟨hmode, hcur, _⟩ | ⟨hmode, hcur, _⟩
      · rw [Weaver.ahead_eq_zero hmode, hcur]
        rfl
      · rw [hmode, hcur]
        rfl
    have hopen : Line.commentedAt w.plan v.text (j + 1) = false := by
      rcases hcursor with ⟨_, _, hopen⟩ | ⟨_, _, hopen⟩
      · rw [← hopen, hclosed]
      · exact hopen
    have hnone : (s.write content honeLine).owner = none := hfresh.1
    have hsettled : ((s.write content honeLine).flush ⟨v.unit.key, j + 1⟩).settled =
        s.settled ++ if s.tail ++ content = [] then []
          else [⟨s.tail ++ content, ⟨v.unit.key, j + 1⟩⟩] := by
      rw [Sheet.settled_flush hnone, s.settled_write hfresh.1]
      rfl
    refine ⟨(s.write content honeLine).flush ⟨v.unit.key, j + 1⟩, ?_, Sheet.owned_flush _ _, hopen,
      ?_, Or.inl ⟨line, content, hline, hretains, henters, ?_⟩⟩
    · rw [Sheet.output_flush, houtput, hline']
    · rw [← hcomment]
      by_cases hnil : s.tail ++ content = []
      · rw [hnil]
        refine Sheet.grows_of_settled_eq ?_ _
        rw [hsettled, if_pos hnil, List.append_nil]
      · rw [if_neg hnil] at hsettled
        exact Sheet.grows_of_row hsettled hplain
    · rw [hsettled]
      simp only [hlast, true_and]
  | @expanded t hdirective hcomment hcomment' hmode hcur houtput howned hfills =>
    obtain ⟨_, rfl⟩ := Weaver.finish_eq_ok.mp hfinish
    refine ⟨t.flush ⟨v.unit.key, cur.line + 1 - Weaver.ahead cur.mode⟩, ?_, t.owned_flush _,
      hcomment', ?_⟩
    · rw [t.output_flush, houtput]
    · have hsettled := t.settled_flush_of_owned howned
        ⟨v.unit.key, cur.line + 1 - Weaver.ahead cur.mode⟩
      exact .of_fills hdirective hcomment hcomment' (hfills.congr (fun _ => Iff.rfl) rfl hsettled)

/-! ## From line to line -/

section

variable (hsound : ∀ u : Visit σ, u.room < v.room → u.Sound w) (hends : v.Ends w p)
include hsound hends

theorem AtLine.next (h : v.AtLine w j q s) (hlt : j + 1 < (Text.lines v.text).length) :
    ∃ q' t, v.AtLine w (j + 1) q' t ∧ v.Deals w j q s t := by
  have hline : (Text.lines v.text)[j]? = some (Text.lines v.text)[j] :=
    List.getElem?_eq_getElem (by omega)
  have hremaining := Text.remaining_eq_cons hline hlt
  obtain ⟨cur, q₁, hstands, hend⟩ :=
    h.lineEnd hsound hends hline (Or.inr ⟨_, rfl⟩) hremaining
  obtain ⟨q', t, hstep, houtput, htail, hdeals⟩ :=
    hend.lineFeed h.fresh hlt (Text.remaining v.text (j + 1))
  refine ⟨q', t, ⟨?_, houtput, Sheet.fresh_of_tail_eq_nil htail, fun _ => htail⟩, hdeals⟩
  have hnext := hstands.step hstep
  rw [List.append_assoc, ← Text.before_succ hline] at hnext
  rw [htail]
  exact hnext

theorem AtLine.last (h : v.AtLine w j q s) (hlast : j + 1 = (Text.lines v.text).length) :
    ∃ t : Sheet, t.output = p.output ∧ t.Owned ∧
      Line.commentedAt w.plan v.text (j + 1) = false ∧ v.Deals w j q s t := by
  have hline : (Text.lines v.text)[j]? = some (Text.lines v.text)[j] :=
    List.getElem?_eq_getElem (by omega)
  have hremaining := Text.remaining_eq_last hline hlast
  rw [← List.append_nil (Text.lines v.text)[j]] at hremaining
  obtain ⟨cur, q₁, hstands, hend⟩ := h.lineEnd hsound hends hline (Or.inl rfl) hremaining
  obtain ⟨cur', q', hwalk, hfinish⟩ := hends.walk hstands
  cases hwalk
  exact hend.finish h.fresh hlast hfinish

/-- From the start of any line on, the visit adds whole rows. -/
theorem AtLine.grows (h : v.AtLine w j q s) (hlt : j < (Text.lines v.text).length) :
    ∃ t : Sheet, t.output = p.output ∧ t.Owned ∧
      s.Grows w.plan (Line.commentedAt w.plan v.text j) false t := by
  -- induction on the number of lines behind this one
  induction hn : (Text.lines v.text).length - (j + 1) generalizing j q s with
  | zero =>
    obtain ⟨t, houtput, howned, hclosed, hdeals⟩ := h.last hsound hends (by omega)
    exact ⟨t, houtput, howned, hclosed ▸ hdeals.grows⟩
  | succ n ih =>
    obtain ⟨q', s', hnext, hdeals⟩ := h.next hsound hends (by omega)
    obtain ⟨t, houtput, howned, hgrows⟩ := ih hnext (by omega) (by omega)
    exact ⟨t, houtput, howned, hdeals.grows.trans hgrows⟩

end

/-- Every visit that begins behind white space which nobody owns, and ends with
success, adds whole rows. -/
theorem sound (v : Visit σ) (w : Weaver σ) : v.Sound w := by
  induction hroom : v.room using Nat.strong_induction_on generalizing v with
  | _ room ih =>
    -- every nested unit has less room
    intro s p hs hfresh hends
    have hsound : ∀ u : Visit σ, u.room < v.room → u.Sound w :=
      fun u hu => ih u.room (hroom ▸ hu) u rfl
    have hpos : 0 < (Text.lines v.text).length :=
      List.length_pos_iff.mpr (Text.lines_ne_nil v.text)
    obtain ⟨t, houtput, howned, hgrows⟩ := (atLine_zero hs hfresh).grows hsound hends hpos
    rw [Line.commentedAt_zero] at hgrows
    exact ⟨t, hs, hfresh, ⟨p, hends, houtput⟩, howned, hgrows⟩

end Visit

end ShaderWeave
