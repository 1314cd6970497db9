import ShaderWeave.Proofs.Composition
import ShaderWeave.Proofs.Origin
import ShaderWeave.Proofs.Padding
import ShaderWeave.Proofs.Verbatim

/-!
# Injected lines keep the indentation

The segments of a placeholder are moved to the column where the placeholder stands: their
first lines are written behind what stands there already, and their other lines get padding.
Placeholders in segments stand at that column or behind it, and so on downwards. As long as
no segment includes other units, every line of an expansion is indented as its placeholder is.

## Main definitions

- `Visit.SetIn`: the visit scans a segment at its column, which is not below a given one.

## Main results

- `Visit.SetIn.enters`: the visits that a segment leads to are set in as well.
- `Visit.SetIn.indented`: the lines that such a visit leaves.
- `injected_lines_indented`: the whole statement for the expansion of a placeholder.
-/

namespace ShaderWeave

/-! ## Padding -/

namespace Text

variable {pad line text : List Char} {j : Nat}

/-- A line with other characters than white space gets its padding. -/
theorem padLine_eq_append (h : ∃ c ∈ padLine pad line, isSpace c = false) :
    padLine pad line = pad ++ line := by
  obtain ⟨c, hc, hsolid⟩ := h
  unfold padLine at hc ⊢
  split
  · next hreturns =>
    rw [if_pos hreturns] at hc
    obtain rfl := beq_iff_eq.mp (List.all_eq_true.mp hreturns c hc)
    exact absurd hsolid (by decide)
  · rfl

/-- Padding changes nothing of a line but the white space in front of it. -/
theorem dropWhile_padLine_suffix (hpad : ∀ c ∈ pad, isSpace c) (line : List Char) :
    (padLine pad line).dropWhile isSpace <:+ line := by
  unfold padLine
  split
  · exact List.dropWhile_suffix _
  · rw [List.dropWhile_append_of_pos hpad]
    exact List.dropWhile_suffix _

/-- Lines of an indented text are lines of the text, and all but the first are padded. -/
theorem exists_of_lines_indent (hpad : '\n' ∉ pad)
    (h : (lines (indent pad text))[j]? = some line) :
    ∃ original ∈ lines text, line = if j = 0 then original else padLine pad original := by
  rw [getElem?_lines_indent hpad] at h
  obtain ⟨original, horiginal, rfl⟩ := Option.map_eq_some_iff.mp h
  exact ⟨original, List.mem_of_getElem? horiginal, rfl⟩

theorem infix_of_mem_lines (h : line ∈ lines text) : line <:+: text := by
  obtain ⟨front, back, hlines⟩ := List.append_of_mem h
  rw [← unlines_lines text, hlines, unlines_append front (List.cons_ne_nil line back)]
  cases back with
  | nil => exact ⟨ended front, [], by rw [unlines_singleton, List.append_nil]⟩
  | cons next back =>
    refine ⟨ended front, '\n' :: unlines (next :: back), ?_⟩
    rw [unlines_cons line (List.cons_ne_nil _ _), List.append_assoc]

end Text

theorem Output.lineWidth_pushText (o : Output) {text : List Char} (h : '\n' ∉ text) :
    (o.pushText (String.ofList text)).lineWidth = o.lineWidth + text.length := by
  have hall : ∀ c ∈ text.reverse, (c != '\n') = true := by
    intro c hc
    have hne : c ≠ '\n' := by
      rintro rfl
      exact h (List.mem_reverse.mp hc)
    simp [hne]
  simp only [Output.lineWidth, Output.text_pushText, String.toList_append, String.toList_ofList,
    List.reverse_append, List.takeWhile_append_of_pos hall, List.length_append,
    List.length_reverse]
  exact Nat.add_comm _ _

/-! ## Segments at their column -/

namespace Segment

variable {s : Segment} {column j : Nat} {line : List Char}

theorem exists_of_lines_unit (h : (Text.lines (s.unit column).text.toList)[j]? = some line) :
    ∃ original ∈ Text.lines s.snippet.toList,
      line = if j = 0 then original else Text.padLine (List.replicate column ' ') original := by
  have hpad : '\n' ∉ List.replicate column ' ' := by simp [List.mem_replicate]
  rw [unit, String.toList_ofList] at h
  exact Text.exists_of_lines_indent hpad h

theorem isSpace_of_mem_pad {c : Char} (h : c ∈ List.replicate column ' ') : Text.isSpace c := by
  rw [List.eq_of_mem_replicate h]
  decide

/-- A snippet without the word for an inclusion includes nothing, at whatever column. -/
theorem directiveAt?_unit_ne_inclusion {plan : Plan} {path : Option String}
    (h : ¬Directive.inclusionWord <:+: s.snippet.toList) :
    Line.directiveAt? plan (s.unit column).text.toList j ≠ some (.inclusion path) := by
  intro hdirective
  obtain ⟨line, hline, hread⟩ := Option.bind_eq_some_iff.mp hdirective
  have honeLine := Text.oneLine_of_mem_lines (List.mem_of_getElem? hline)
  have hasks := ((Line.directive?_eq_some_iff honeLine).mp hread).2
  have hword : Directive.inclusionWord <+: line.dropWhile Text.isSpace := by
    cases hasks with
    | quoted hword _ => exact ⟨_, hword.symm⟩
    | unquoted hword _ => exact ⟨_, hword.symm⟩
  obtain ⟨original, horiginal, hpadded⟩ := exists_of_lines_unit hline
  have hsuffix : line.dropWhile Text.isSpace <:+ original := by
    subst hpadded
    split
    · exact List.dropWhile_suffix _
    · exact Text.dropWhile_padLine_suffix (fun c hc => isSpace_of_mem_pad hc) original
  exact h ((hword.isInfix.trans hsuffix.isInfix).trans (Text.infix_of_mem_lines horiginal))

end Segment

namespace Weaver

variable {σ : Type} {w : Weaver σ} {room : Nat} {site : Location} {column : Nat} {q q' : Pass σ}
  {u : Visit σ}

/-- Room for a further segment is made up to its column. -/
theorem lineWidth_of_separate (h : (separate site column).run q = .ok () q') :
    q'.output.lineWidth = column := by
  have hpad : '\n' ∉ List.replicate column ' ' := by simp [List.mem_replicate]
  cases h
  have hzero : (if q.output.isMidLine then q.output.endLine site else q.output).lineWidth = 0 := by
    cases hmid : q.output.isMidLine with
    | true => simp
    | false => simpa using Output.lineWidth_eq_zero hmid
  have hpushed := Output.lineWidth_pushText
    (if q.output.isMidLine then q.output.endLine site else q.output) hpad
  rwa [hzero, List.length_replicate, Nat.zero_add] at hpushed

theorem lineWidth_of_leadIn {descend : Location → SourceUnit → WeaveM σ Unit}
    {segments : List Segment} (hq : q.output.lineWidth = column)
    (h : (leadIn descend site column segments).run q = .ok () q') :
    q'.output.lineWidth = column := by
  unfold leadIn at h
  split at h
  · cases h
    exact hq
  · obtain ⟨_, q₁, -, hseparate⟩ := WeaveM.run_bind_eq_ok.mp h
    exact lineWidth_of_separate hseparate

/-- Every segment of a placeholder begins at the column of the placeholder. -/
theorem Calls.at_column {key : String} {cur : Cursor} {name : String}
    (h : w.Calls room key cur q (.placeholder name) u) (hcur : q.output.lineWidth = cur.column) :
    ∃ s ∈ w.plan.segments, u.unit = s.unit cur.column ∧ u.pass.output.lineWidth = cur.column := by
  cases h with
  | placeholder hstarts =>
    obtain ⟨-, hsegments, hbegun⟩ := hstarts
    next front others s room' q₁ =>
    have hs : s ∈ w.plan.segmentsFor name := by simp [hsegments]
    exact ⟨s, Plan.mem_segments_of_mem_segmentsFor hs, rfl, lineWidth_of_leadIn hcur hbegun⟩

end Weaver

/-! ## Visits of segments -/

namespace Visit

variable {σ : Type} {w : Weaver σ} {u v : Visit σ} {n j : Nat} {q : Pass σ} {a s t : Sheet}
  {line : List Char}

/-- The visit scans a segment that has been moved to the column where the visit begins, and
`n` characters or more stand in front of this column. -/
def SetIn (v : Visit σ) (w : Weaver σ) (n : Nat) : Prop :=
  ∃ s ∈ w.plan.segments, v.unit = s.unit v.pass.output.lineWidth ∧ n ≤ v.pass.output.lineWidth

theorem Runs.unique {s' t' : Sheet} (h : v.Runs w s t) (h' : v.Runs w s' t') :
    s = s' ∧ t = t' := by
  obtain ⟨q, hends, ht⟩ := h.ends
  obtain ⟨q', hends', ht'⟩ := h'.ends
  obtain rfl := hends.unique hends'
  exact ⟨Sheet.output_injective (h.start.trans h'.start.symm),
    Sheet.output_injective (ht.trans ht'.symm)⟩

/-- What stands in front of a line, and the white space that the line begins with, come to the
column or more, if the line has some other character. -/
theorem SetIn.indented (h : v.SetIn w n) (hruns : v.Runs w s t) (hat : v.AtLine w j q a)
    (hline : (Text.lines v.text)[j]? = some line) (hsolid : ∃ c ∈ line, Text.isSpace c = false) :
    n ≤ a.tail.length + (line.takeWhile Text.isSpace).length := by
  obtain ⟨segment, -, hunit, hn⟩ := h
  rw [text, hunit] at hline
  obtain ⟨original, -, hpadded⟩ := Segment.exists_of_lines_unit hline
  by_cases hj : j = 0
  · -- the first line stands behind what the visit has found
    subst hj
    obtain ⟨-, rfl⟩ := hat.unique (atLine_zero hruns.start hruns.fresh)
    rw [← hruns.start, a.lineWidth_output] at hn
    omega
  · rw [if_neg hj] at hpadded
    subst hpadded
    rw [Text.padLine_eq_append hsolid,
      List.takeWhile_append_of_pos fun c hc => Segment.isSpace_of_mem_pad hc, List.length_append,
      List.length_replicate]
    omega

/-- The white space of a line has been written when its directive is expanded. -/
theorem AtLine.lineWidth_write (hat : v.AtLine w j q a)
    (hline : (Text.lines v.text)[j]? = some line) :
    (q.write (line.takeWhile Text.isSpace)).output.lineWidth =
      a.tail.length + (line.takeWhile Text.isSpace).length := by
  have honeLine : '\n' ∉ line.takeWhile Text.isSpace := fun hmem =>
    Text.oneLine_of_mem_lines (List.mem_of_getElem? hline) (List.takeWhile_subset _ hmem)
  rw [← a.lineWidth_output, hat.output]
  exact Output.lineWidth_pushText q.output honeLine

/-- A placeholder in a segment does not stand in front of the column, so its own segments are
set in as well. -/
theorem SetIn.enters
    (hplan : ∀ s ∈ w.plan.segments, ¬Directive.inclusionWord <:+: s.snippet.toList)
    (h : v.SetIn w n) (hruns : v.Runs w s t) (henters : v.Enters w j u) : u.SetIn w n := by
  have hlt := henters.lt_length
  have hline : (Text.lines v.text)[j]? = some (Text.lines v.text)[j] := List.getElem?_eq_getElem hlt
  obtain ⟨q, a, b, hpasses, -, -⟩ := hruns.exists_passes hlt
  obtain ⟨d, hd, hcalls⟩ := hpasses.begun.calls_of_enters hline henters
  cases d with
  | inclusion path =>
    obtain ⟨segment, hsegment, hunit, -⟩ := h
    rw [text, hunit] at hd
    exact absurd hd (Segment.directiveAt?_unit_ne_inclusion (hplan segment hsegment))
  | placeholder name =>
    have hsolid : ∃ c ∈ (Text.lines v.text)[j], Text.isSpace c = false := by
      by_contra hblank
      simp only [not_exists, not_and, Bool.not_eq_false] at hblank
      rw [Line.directiveAt?_eq hline, Line.directive?_of_blank hblank] at hd
      cases hd
    have hwidth := hpasses.begun.lineWidth_write hline
    obtain ⟨segment, hsegment, hunit, hbegun⟩ := hcalls.at_column hwidth
    refine ⟨segment, hsegment, by rw [hbegun, hunit], ?_⟩
    rw [hbegun]
    exact h.indented hruns hpasses.begun hline hsolid

theorem SetIn.visited
    (hplan : ∀ s ∈ w.plan.segments, ¬Directive.inclusionWord <:+: s.snippet.toList)
    (h : v.SetIn w n) (hruns : v.Runs w s t) (hvisited : w.Visited v u) : u.SetIn w n := by
  induction hvisited with
  | refl => exact h
  | tail hvisited henters ih =>
    obtain ⟨j, henters⟩ := henters
    obtain ⟨s', t', hruns', -, -⟩ := hruns.within_of_visited hvisited
    exact ih.enters hplan hruns' henters

/-- An output line that a line of a segment leaves is indented. -/
theorem SetIn.exists_row (h : v.SetIn w n) (hruns : v.Runs w s t) {i : Nat}
    (hi : v.Owns w j i) :
    ∃ row, t.settled[i]? = some row ∧ ((∃ c ∈ row.content, Text.isSpace c = false) →
      n ≤ (row.content.takeWhile Text.isSpace).length) := by
  have hwithin : v.Within w s t := ⟨s, t, hruns, List.prefix_refl _, List.prefix_refl _⟩
  obtain ⟨q, a, line, content, hat, hline, hretains, -, hrow⟩ := hwithin.exists_row hi
  refine ⟨_, hrow, fun hsolid => ?_⟩
  have hblank := hat.fresh.2
  have hcontent : ∃ c ∈ content, Text.isSpace c = false := by
    obtain ⟨c, hc, hsolid⟩ := hsolid
    rcases List.mem_append.mp hc with hc | hc
    · rw [hblank c hc] at hsolid
      cases hsolid
    · exact ⟨c, hc, hsolid⟩
  rcases hretains with ⟨-, rfl⟩ | ⟨path, -, -, rfl⟩
  · rw [List.takeWhile_append_of_pos hblank, List.length_append]
    exact h.indented hruns hat hline hcontent
  · obtain ⟨c, hc, hsolid⟩ := hcontent
    rw [List.mem_takeWhile_imp hc] at hsolid
    cases hsolid

/-! ## Expanding a placeholder -/

section

variable {d : Directive} {cur : Cursor}

theorem Acts.enters_of_calls (h : v.Acts w j d cur q)
    (hcalls : w.Calls v.room v.unit.key cur q d u) : v.Enters w j u := by
  obtain ⟨done, c, rest, hstands, hacts⟩ := h.exists_stands
  obtain ⟨hmode, -, hread⟩ := Weaver.actsOn?_eq_some_iff.mp hacts
  exact ⟨done, c :: rest, cur, q, d, hstands, hmode, h.line_eq, hread, hcalls⟩

/-- A directive is acted on behind white space which nobody owns. -/
theorem Acts.exists_fresh (h : v.Acts w j d cur q) (hruns : v.Runs w s t) :
    ∃ a : Sheet, a.output = q.output ∧ a.Fresh ∧ q.output.lineWidth = cur.column := by
  obtain ⟨line, hline, -⟩ := Option.bind_eq_some_iff.mp h.directiveAt?
  obtain ⟨q₀, a, b, hpasses, -, -⟩ := hruns.exists_passes (List.getElem?_eq_some_iff.mp hline).1
  obtain ⟨done, c, rest, hstands, hacts⟩ := h.exists_stands
  obtain ⟨hmode, -, hread⟩ := Weaver.actsOn?_eq_some_iff.mp hacts
  obtain ⟨-, rfl, rfl⟩ := hpasses.begun.of_read? hline hstands hmode h.line_eq hread
  have honeLine : '\n' ∉ line.takeWhile Text.isSpace := fun hmem =>
    Text.oneLine_of_mem_lines (List.mem_of_getElem? hline) (List.takeWhile_subset _ hmem)
  have hblank : ∀ c ∈ line.takeWhile Text.isSpace, Text.isSpace c :=
    fun c hc => List.mem_takeWhile_imp hc
  refine ⟨a.write _ honeLine, ?_, hpasses.begun.fresh.write hblank honeLine,
    hpasses.begun.lineWidth_write hline⟩
  rw [a.output_write honeLine, hpasses.begun.output]
  rfl

/-- The visits that a placeholder leads to fill the rows of its expansion. -/
theorem Acts.exists_fills {p : Pass σ} {name : String}
    (h : v.Acts w j (.placeholder name) cur q) (hends : v.Ends w p) (ha : a.output = q.output)
    (hfresh : a.Fresh) :
    ∃ cur' q' b, (w.expand (w.below v.room) v.unit.key cur (.placeholder name)).run q =
        .ok cur' q' ∧ b.output = q'.output ∧ b.Owned ∧
      w.Fills (w.Calls v.room v.unit.key cur q (.placeholder name)) a b := by
  obtain ⟨done, c, rest, hstands, hacts⟩ := h.exists_stands
  obtain ⟨hmode, -, hread⟩ := Weaver.actsOn?_eq_some_iff.mp hacts
  obtain ⟨_, _, hwalk, -⟩ := hends.walk hstands
  obtain ⟨cur', q', hstep, -⟩ := WeaveM.run_bind_eq_ok.mp hwalk
  rw [Weaver.step_directive hmode hread] at hstep
  rcases Weaver.expand_cases (fun u _ => u.sound w) ha hfresh hread hstep with
    ⟨path, hinclusion, -⟩ | ⟨b, -, hb, howned, hfills⟩
  · cases hinclusion
  · exact ⟨cur', q', b, hstep, hb, howned, hfills⟩

end

end Visit

/-- In a pass that starts on an empty output and succeeds, without segments that include other
units, all output lines that the expansion of a placeholder has written on stay as the expansion
leaves them. Each of them that has other characters than white space begins with as many
characters of white space, or more, as there are on the output line in front of the
placeholder. -/
theorem injected_lines_indented {σ : Type} {w : Weaver σ} {r v : Visit σ} {p q : Pass σ} {j : Nat}
    {name : String} {cur : Cursor}
    (hplan : ∀ s ∈ w.plan.segments, ¬Directive.inclusionWord <:+: s.snippet.toList)
    (hempty : r.pass.output = {}) (hends : r.Ends w p) (hv : w.Visited r v)
    (hacts : v.Acts w j (.placeholder name) cur q) :
    ∃ cur' q', (w.expand (w.below v.room) v.unit.key cur (.placeholder name)).run q =
        .ok cur' q' ∧
      ∀ i, q.output.closed ≤ i → i < (Text.shownLines q'.output.text.toList).length →
        ∃ line, (Text.lines q'.output.text.toList)[i]? = some line ∧
          (Text.lines p.output.text.toList)[i]? = some line ∧
          ((∃ c ∈ line, Text.isSpace c = false) →
            q.output.lineWidth ≤ (line.takeWhile Text.isSpace).length) := by
  have hfresh : ({} : Sheet).Fresh := Sheet.fresh_of_tail_eq_nil rfl
  obtain ⟨t, hruns⟩ := r.sound w {} p hempty.symm hfresh hends
  obtain ⟨p', hends', ht⟩ := hruns.ends
  obtain rfl := hends.unique hends'
  obtain ⟨s', t', hruns', -, -⟩ := hruns.within_of_visited hv
  obtain ⟨pv, hvends, -⟩ := hv.ends hends
  obtain ⟨a, ha, hafresh, hcolumn⟩ := hacts.exists_fresh hruns'
  obtain ⟨cur', q', b, hexpand, hb, howned, hfills⟩ := hacts.exists_fills hvends ha hafresh
  refine ⟨cur', q', hexpand, fun i hle hlt => ?_⟩
  have hle' : a.settled.length ≤ i := by
    rw [Sheet.settled_eq_rows hafresh.1]
    rwa [← ha] at hle
  have hlt' : i < b.settled.length := by
    rwa [← hb, ← Sheet.size_origins_of_owned howned, b.size_origins] at hlt
  -- the line is a row of a segment, or of a segment further down
  obtain ⟨u, hcalls, hyields⟩ := hfills.covers i hle' hlt'
  obtain ⟨s₁, t₁, huruns, -, ht₁⟩ := hfills.within u hcalls
  obtain ⟨u', j', hu', howns⟩ := huruns.exists_owner hyields
  have hvu : w.Visited r u := hv.tail ⟨j, hacts.enters_of_calls hcalls⟩
  have hsetIn : u.SetIn w q.output.lineWidth := by
    obtain ⟨segment, hsegment, hunit, hwidth⟩ := hcalls.at_column hcolumn
    exact ⟨segment, hsegment, by rw [hwidth, hunit], by rw [hwidth, hcolumn]⟩
  obtain ⟨s₂, t₂, huruns', -, ht₂⟩ := huruns.within_of_visited hu'
  obtain ⟨row, hrow, hindented⟩ := (hsetIn.visited hplan huruns hu').exists_row huruns' howns
  have hrowb := Sheet.settled_getElem?_of_prefix (ht₂.trans ht₁) hrow
  -- what is settled stays, so the row is found in the end
  obtain ⟨s₃, t₃, huruns₃, -, ht₃⟩ := hruns.within_of_visited (hvu.trans hu')
  obtain ⟨-, rfl⟩ := huruns'.unique huruns₃
  have hrowt := Sheet.settled_getElem?_of_prefix ht₃ hrow
  refine ⟨row.content, ?_, ?_, hindented⟩
  · rw [← hb]
    exact Sheet.lines_output_getElem? hrowb
  · rw [← ht]
    exact Sheet.lines_output_getElem? hrowt

/-! ## A placeholder in a segment -/

namespace Sample

/-- The segment of one placeholder names the other, on a line that is indented. -/
def shifter : Weaver Library where
  supplier := Library.supplier
  plan := .ofList
    [{ placeholder := ⟨"#pragma LOOP", ""⟩, name := "loop", snippet := "do\n  #pragma BODY\ndone" },
      { placeholder := ⟨"#pragma BODY", ""⟩, name := "body", snippet := "a();\nb();" }]

def shore : SourceUnit :=
  ⟨"main", "in;\n\t#pragma LOOP\nend"⟩

def shifted : Output where
  text := "in;\n\tdo\n   a();\n   b();\n done\nend"
  origins := #[⟨"main", 1⟩, ⟨"loop[#pragma LOOP,1000]", 1⟩, ⟨"body[#pragma BODY,1000]", 1⟩,
    ⟨"body[#pragma BODY,1000]", 2⟩, ⟨"loop[#pragma LOOP,1000]", 3⟩, ⟨"main", 3⟩]
  closed := 5

end Sample

theorem injected_lines_indented_sample :
    ∃ q cur' q', (Sample.shifter.root Sample.shore {}).Acts Sample.shifter 1
        (.placeholder "#pragma LOOP") { line := 1, column := 1 } q ∧
      (Sample.shifter.expand (Sample.shifter.below 32) "main" { line := 1, column := 1 }
        (.placeholder "#pragma LOOP")).run q = .ok cur' q' ∧
      ∀ i, q.output.closed ≤ i → i < (Text.shownLines q'.output.text.toList).length →
        ∃ line, (Text.lines q'.output.text.toList)[i]? = some line ∧
          (Text.lines Sample.shifted.text.toList)[i]? = some line ∧
          ((∃ c ∈ line, Text.isSpace c = false) →
            q.output.lineWidth ≤ (line.takeWhile Text.isSpace).length) := by
  have hplan : ∀ s ∈ Sample.shifter.plan.segments,
      ¬Directive.inclusionWord <:+: s.snippet.toList := by decide +kernel
  have hweave : ∃ pass, Sample.shifter.weave Sample.shore {} = .ok Sample.shifted pass := by
    decide +kernel
  obtain ⟨pass, hweave⟩ := hweave
  obtain ⟨p, hends, hp, -⟩ := Weaver.weave_eq_ok hweave
  -- the scan comes to the directive behind the white space of its line
  have hadvance : ∃ q, (Sample.shifter.advance (Sample.shifter.below 32) "main" { column := 0 }
      "in;\n\t".toList "#pragma LOOP\nend".toList).run { stock := {} } =
        .ok { line := 1, column := 1 } q := by decide +kernel
  obtain ⟨q, hadvance⟩ := hadvance
  have hacts : (Sample.shifter.root Sample.shore {}).Acts Sample.shifter 1
      (.placeholder "#pragma LOOP") { line := 1, column := 1 } q :=
    ⟨_, _, ⟨by decide +kernel, hadvance⟩, by decide +kernel⟩
  obtain ⟨cur', q', hexpand, hlines⟩ := injected_lines_indented hplan rfl hends .refl hacts
  rw [hp]
  exact ⟨q, cur', q', hacts, hexpand, hlines⟩

end ShaderWeave
