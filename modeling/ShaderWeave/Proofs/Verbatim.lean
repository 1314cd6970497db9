import ShaderWeave.Proofs.Advance
import ShaderWeave.Proofs.Sheet

/-!
# Texts without directives

A unit whose lines hold no directive, and whose block comments all end, is woven
as it stands: each of its lines becomes an output line with that line as origin,
and the supplier is not asked for anything.

## Main definitions

- `Row.numbered`: lines as rows of one unit.
- `SourceUnit.verbatim`: the unit as an output.

## Main results

- `Weaver.walk_ended`: what quiet lines come to, line by line.
- `Weaver.weave_of_quiet`: a quiet unit is woven as it stands.
-/

namespace ShaderWeave

/-- Lines as rows of the unit with the given key. There are `n` lines of the unit
in front of them. -/
def Row.numbered (key : String) : Nat → List (List Char) → List Row
  | _, [] => []
  | n, line :: ls => ⟨line, ⟨key, n + 1⟩⟩ :: numbered key (n + 1) ls

theorem Row.map_content_numbered (key : String) (n : Nat) (ls : List (List Char)) :
    (numbered key n ls).map Row.content = ls := by
  induction ls generalizing n with
  | nil => rfl
  | cons line ls ih => simp [numbered, ih]

theorem Row.map_origin_numbered (key : String) (n : Nat) (ls : List (List Char)) :
    (numbered key n ls).map Row.origin = (List.range' (n + 1) ls.length).map (Location.mk key) := by
  induction ls generalizing n with
  | nil => rfl
  | cons line ls ih => simp [numbered, ih, List.range'_succ]

/-- The unit as an output: its text, with its own lines as origins. -/
def SourceUnit.verbatim (unit : SourceUnit) : Output where
  text := unit.text
  origins :=
    ((List.range' 1 (Text.shownLines unit.text.toList).length).map (Location.mk unit.key)).toArray
  closed := unit.text.toList.count '\n'

theorem Text.length_shownLines {text last : List Char} {ls : List (List Char)}
    (h : lines text = ls ++ [last]) :
    (shownLines text).length = ls.length + if last = [] then 0 else 1 := by
  by_cases hnil : last = []
  · simp [shownLines, h, hnil]
  · simp [shownLines, h, hnil]

/-- Where what is begun is owned, there is an origin for every line that a listing shows. -/
theorem Sheet.size_origins_of_owned {s : Sheet} (h : s.Owned) :
    s.output.origins.size = (Text.shownLines s.output.text.toList).length := by
  have howner : s.owner = none ↔ s.tail = [] :=
    ⟨fun hnone => by_contra fun hne => h hne hnone, s.owner_eq_none⟩
  rw [Text.length_shownLines s.lines_output, List.length_map, s.size_origins_eq_closed]
  simp only [howner]
  rfl

theorem Sheet.output_eq_verbatim {s : Sheet} {unit : SourceUnit} {ls : List (List Char)}
    {last : List Char} (hlines : Text.lines unit.text.toList = ls ++ [last])
    (hrows : s.rows = Row.numbered unit.key 0 ls) (htail : s.tail = last)
    (howner : s.owner = if last = [] then none else some ⟨unit.key, ls.length + 1⟩) :
    s.output = unit.verbatim := by
  have hcontent : s.rows.map Row.content = ls := by rw [hrows, Row.map_content_numbered]
  have htext : s.output.text = unit.text := by
    rw [← String.toList_inj, ← Text.unlines_lines s.output.text.toList, s.lines_output, hcontent,
      htail, ← hlines, Text.unlines_lines]
  have hclosed : s.output.closed = unit.text.toList.count '\n' := by
    rw [s.closed_output, htext]
  have horigins : s.output.origins = unit.verbatim.origins := by
    have hended : s.rows.map Row.origin = (List.range' 1 ls.length).map (Location.mk unit.key) := by
      rw [hrows, Row.map_origin_numbered]
    show (s.rows.map Row.origin ++ s.owner.toList).toArray = _
    rw [hended, howner, SourceUnit.verbatim, Text.length_shownLines hlines]
    by_cases hnil : last = []
    · simp [hnil]
    · simp [hnil, List.range'_1_concat, Nat.add_comm]
  cases hs : s.output with
  | mk text origins closed =>
    rw [hs] at htext hclosed horigins
    subst htext hclosed horigins
    rfl

namespace Weaver

variable {σ : Type} (w : Weaver σ) (descend : Location → SourceUnit → WeaveM σ Unit) (key : String)

/-- A quiet line and its line feed settle one row. -/
theorem advance_line {commented : Bool} {line : List Char} (hline : '\n' ∉ line)
    (hplain : Line.directive? w.plan commented line = none) {s : Sheet} {p : Pass σ}
    (hs : s.output = p.output) (htail : s.tail = []) (n : Nat) (rest : List Char) :
    ∃ t : Sheet, t.tail = [] ∧ t.rows = s.rows ++ [⟨line, ⟨key, n + 1⟩⟩] ∧
      (w.advance descend key ⟨.atStart commented, n, 0⟩ (line ++ ['\n']) rest).run p =
        .ok ⟨.atStart (Line.commentAfter commented line), n + 1, 0⟩
          { p with output := t.output } := by
  let cur : Cursor := ⟨.atStart commented, n, 0⟩
  have hmode : ∀ replaced, (cur.past line).mode ≠ .directive replaced :=
    Mode.foldl_next_ne_directive (Mode.atStart_ne_directive commented) line
  have hopen : (cur.past line).mode.isComment = Line.commentAfter commented line :=
    Mode.isComment_foldl_atStart commented hline
  have hcopied : (w.advance descend key cur line ('\n' :: rest)).run p =
      .ok (cur.past line) (p.write line) := advance_plain rfl hline hplain (Or.inr ⟨rest, rfl⟩)
  refine ⟨(s.write line hline).endLine ⟨key, n + 1⟩, rfl, ?_, ?_⟩
  · have hnone := s.owner_eq_none htail
    simp [Sheet.endLine, Sheet.write, htail, hnone]
  · rw [advance_append, WeaveM.run_bind_eq_ok]
    refine ⟨cur.past line, p.write line, hcopied, ?_⟩
    rw [advance, WeaveM.run_bind_eq_ok]
    refine ⟨_, _, step_lineFeed hmode, ?_⟩
    rw [Mode.next_lineFeed hmode, hopen, Sheet.output_endLine, s.output_write hline, hs]
    rfl

/-- Quiet lines are copied one by one, each with itself as origin. -/
theorem advance_ended {commented commented' : Bool} {ls : List (List Char)}
    (hclean : ∀ l ∈ ls, '\n' ∉ l) (hquiet : Line.quiet w.plan commented ls = some commented')
    {s : Sheet} {p : Pass σ} (hs : s.output = p.output) (htail : s.tail = []) (n : Nat)
    (rest : List Char) :
    ∃ t : Sheet, t.tail = [] ∧ t.rows = s.rows ++ Row.numbered key n ls ∧
      (w.advance descend key ⟨.atStart commented, n, 0⟩ (Text.ended ls) rest).run p =
        .ok ⟨.atStart commented', n + ls.length, 0⟩ { p with output := t.output } := by
  induction ls generalizing commented s p n with
  | nil =>
    cases hquiet
    refine ⟨s, htail, by simp [Row.numbered], ?_⟩
    rw [hs]
    rfl
  | cons line ls ih =>
    rw [Line.quiet] at hquiet
    split at hquiet
    · next hplain =>
      have hended : Text.ended (line :: ls) = (line ++ ['\n']) ++ Text.ended ls := rfl
      obtain ⟨s', htail', hrows', hline⟩ := advance_line w descend key
        (hclean line List.mem_cons_self) hplain hs htail n (Text.ended ls ++ rest)
      obtain ⟨t, htail'', hrows'', hrest⟩ := ih (fun l hl => hclean l (List.mem_cons_of_mem _ hl))
        hquiet (p := { p with output := s'.output }) rfl htail' (n + 1)
      refine ⟨t, htail'', ?_, ?_⟩
      · rw [hrows'', hrows', List.append_assoc]
        rfl
      · rw [hended, advance_append, WeaveM.run_bind_eq_ok]
        refine ⟨_, _, hline, ?_⟩
        rw [hrest, List.length_cons, Nat.add_assoc n 1, Nat.add_comm 1]
    · cases hquiet

theorem walk_last {commented : Bool} {last : List Char} (hlast : '\n' ∉ last)
    (hplain : Line.directive? w.plan commented last = none)
    (hclosed : Line.commentAfter commented last = false) {s : Sheet} {p : Pass σ}
    (hs : s.output = p.output) (n : Nat) :
    ∃ cur, (w.walk descend key ⟨.atStart commented, n, 0⟩ last).run p = .ok cur (p.write last) ∧
      (finish key cur).run (p.write last) =
        .ok () { p with output := ((s.write last hlast).flush ⟨key, n + 1⟩).output } := by
  let cur : Cursor := ⟨.atStart commented, n, 0⟩
  have hmode : ∀ replaced, (cur.past last).mode ≠ .directive replaced :=
    Mode.foldl_next_ne_directive (Mode.atStart_ne_directive commented) last
  have hopen : (cur.past last).mode.isComment = false :=
    (Mode.isComment_foldl_atStart commented hlast).trans hclosed
  refine ⟨cur.past last, ?_, ?_⟩
  · rw [walk_eq_advance]
    exact advance_plain rfl hlast hplain (Or.inl rfl)
  · rw [finish_eq_ok, ahead_eq_zero hmode, Sheet.output_flush, s.output_write hlast, hs]
    exact ⟨hopen, rfl⟩

/-- Reading a unit without directives whose block comments all end writes the unit
and does nothing else. -/
theorem scan_of_quiet (unit : SourceUnit)
    (hquiet : Line.quiet w.plan false (Text.lines unit.text.toList) = some false) (stock : σ) :
    (w.scan descend unit).run { stock := stock } =
      .ok () { stock := stock, output := unit.verbatim } := by
  obtain ⟨ls, last, hlines, htext, hclean, hlast⟩ := Text.exists_ended_append unit.text.toList
  -- all lines but the last end in a line feed
  rw [hlines, Line.quiet_append] at hquiet
  obtain ⟨commented, hended, hlastQuiet⟩ := Option.bind_eq_some_iff.mp hquiet
  rw [Line.quiet] at hlastQuiet
  split at hlastQuiet
  · next hplain =>
    have hclosed : Line.commentAfter commented last = false := Option.some.inj hlastQuiet
    obtain ⟨s, htail, hrows, hadvance⟩ := advance_ended w descend unit.key hclean hended (s := {})
      (p := { stock := stock }) rfl rfl 0 last
    obtain ⟨cur, hwalk, hfinish⟩ := walk_last w descend unit.key hlast hplain hclosed
      (s := s) (p := { stock := stock, output := s.output }) rfl ls.length
    have hverbatim : ((s.write last hlast).flush ⟨unit.key, ls.length + 1⟩).output =
        unit.verbatim := by
      have hnone := s.owner_eq_none htail
      apply Sheet.output_eq_verbatim hlines
      · exact hrows
      · simp [Sheet.flush, Sheet.write, htail]
      · simp [Sheet.flush, Sheet.write, htail, hnone]
    rw [scan, WeaveM.run_bind_eq_ok]
    refine ⟨_, _, rfl, ?_⟩
    rw [htext, WeaveM.run_bind_eq_ok]
    refine ⟨cur, _, ?_, hverbatim ▸ hfinish⟩
    rw [walk_append, WeaveM.run_bind_eq_ok]
    exact ⟨_, _, hadvance, by rw [Nat.zero_add]; exact hwalk⟩
  · cases hlastQuiet

/-- A unit without directives whose block comments all end is woven as it stands. -/
theorem weave_of_quiet (unit : SourceUnit)
    (hquiet : Line.quiet w.plan false (Text.lines unit.text.toList) = some false) (stock : σ) :
    ∃ pass, w.weave unit stock = .ok unit.verbatim pass ∧ pass.exchanges = #[] ∧
      pass.stock = stock := by
  have hscan := scan_of_quiet w (w.below w.limit) unit hquiet stock
  rw [← unitAt_eq_scan] at hscan
  refine ⟨_, WeaveM.run_bind_eq_ok.mpr ⟨(), _, hscan, rfl⟩, rfl, rfl⟩

end Weaver

end ShaderWeave
