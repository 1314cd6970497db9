import ShaderWeave.Proofs.Recognition
import ShaderWeave.Proofs.Strand

/-!
# Padding and the lines of a text

The text of a segment is moved to its column with padding in front of its lines, but for the
first of them and for those that hold carriage returns only. This is done on the pieces of the
text, which have their line feeds in them. Seen from the lines, which have not, it puts the
padding in front of each line that asks for it and leaves all else alone, a line feed at the
end of the text included. The lines stay in their places,
so a line of the padded text has the number that it has in the segment. White space at the
start of a line neither makes nor hides a directive or a comment, so the line is read as it
would be in the segment.

## Main definitions

- `Text.padLine`: one line with its padding.
- `Visit.Recognises`: how the scan takes a line of its unit.

## Main results

- `Text.indent_eq_unlines`: padding the pieces is padding the lines.
- `Text.getElem?_lines_indent`: the lines of a padded text.
- `Text.indent_indent`: paddings come to one padding.
- `Line.commentedAt_indent`, `Line.directiveAt?_indent`: the lines are read as before.
- `Visit.Begins.recognises`: the scan takes a line as it reads.
- `padding_keeps_lines`: the whole statement.
-/

namespace ShaderWeave

/-! ## Lines of a padded text -/

namespace Text

variable {pad line text first : List Char} {others : List (List Char)}

/-- Put `pad` in front of a line, unless the line holds carriage returns only. -/
def padLine (pad line : List Char) : List Char :=
  if line.all (· == '\r') then line else pad ++ line

theorem padLine_of_returns (h : ∀ c ∈ line, c = '\r') : padLine pad line = line := by
  rw [padLine, if_pos (List.all_eq_true.mpr fun c hc => beq_iff_eq.mpr (h c hc))]

theorem padLine_of_content (h : ∃ c ∈ line, c ≠ '\r') : padLine pad line = pad ++ line := by
  obtain ⟨c, hc, hne⟩ := h
  rw [padLine, if_neg]
  intro hall
  exact hne (beq_iff_eq.mp (List.all_eq_true.mp hall c hc))

theorem oneLine_padLine (hpad : '\n' ∉ pad) (hline : '\n' ∉ line) : '\n' ∉ padLine pad line := by
  unfold padLine
  split
  · exact hline
  · simp [hpad, hline]

/-- A line that has got padding has content, so it gets the next padding as well. -/
theorem padLine_padLine (outer pad line : List Char) :
    padLine outer (padLine pad line) = padLine (outer ++ pad) line := by
  by_cases h : ∃ c ∈ line, c ≠ '\r'
  · obtain ⟨c, hc, hne⟩ := h
    have hpadded : ∃ c ∈ pad ++ line, c ≠ '\r' := ⟨c, List.mem_append_right pad hc, hne⟩
    rw [padLine_of_content ⟨c, hc, hne⟩, padLine_of_content hpadded,
      padLine_of_content ⟨c, hc, hne⟩, List.append_assoc]
  · have hreturns : ∀ c ∈ line, c = '\r' := by simpa using h
    simp only [padLine_of_returns hreturns]

/-! ### Pieces -/

theorem pieces_cons_of_ne {c : Char} (hc : c ≠ '\n') (rest : List Char) :
    pieces (c :: rest) = match pieces rest with
      | [] => [[c]]
      | piece :: others => (c :: piece) :: others :=
  if_neg hc

theorem pieces_of_oneLine (h : '\n' ∉ line) : pieces line = if line = [] then [] else [line] := by
  induction line with
  | nil => rfl
  | cons c line ih =>
    obtain ⟨hc, hline⟩ := oneLine_cons h
    rw [pieces_cons_of_ne hc, ih hline]
    cases line with
    | nil => rfl
    | cons d line => simp

theorem pieces_cons_line (h : '\n' ∉ line) (rest : List Char) :
    pieces (line ++ '\n' :: rest) = (line ++ ['\n']) :: pieces rest := by
  induction line with
  | nil => rfl
  | cons c line ih =>
    obtain ⟨hc, hline⟩ := oneLine_cons h
    rw [List.cons_append, pieces_cons_of_ne hc, ih hline]
    rfl

/-- What trimming leaves nothing of has no content. -/
theorem trimLineEnd_eq_nil_iff {piece : List Char} :
    trimLineEnd piece = [] ↔ ∀ c ∈ piece, c = '\r' ∨ c = '\n' := by
  simp [trimLineEnd, List.dropWhile_eq_nil_iff]

/-- A piece behind the first, with its padding. -/
def padPiece (pad piece : List Char) : List Char :=
  if (trimLineEnd piece).isEmpty then piece else pad ++ piece

/-- A piece is padded if its line is, whether or not a line feed ends it. -/
theorem padPiece_append (hline : '\n' ∉ line) {ending : List Char}
    (hending : ∀ c ∈ ending, c = '\n') :
    padPiece pad (line ++ ending) = padLine pad line ++ ending := by
  have hreturns : trimLineEnd (line ++ ending) = [] ↔ ∀ c ∈ line, c = '\r' := by
    rw [trimLineEnd_eq_nil_iff]
    constructor
    · intro h c hc
      refine (h c (List.mem_append_left _ hc)).resolve_right ?_
      rintro rfl
      exact hline hc
    · intro h c hc
      rcases List.mem_append.mp hc with hc | hc
      · exact .inl (h c hc)
      · exact .inr (hending c hc)
  by_cases h : ∀ c ∈ line, c = '\r'
  · rw [padPiece, if_pos (List.isEmpty_iff.mpr (hreturns.mpr h)), padLine_of_returns h]
  · have hcontent : ∃ c ∈ line, c ≠ '\r' := by simpa using h
    rw [padPiece, if_neg (mt List.isEmpty_iff.mp (mt hreturns.mp h)),
      padLine_of_content hcontent, List.append_assoc]

/-- Pieces behind the first have positive numbers, so those with content are padded. -/
theorem flatMap_zipIdx_succ (pieces : List (List Char)) (i : Nat) :
    ((pieces.zipIdx (i + 1)).flatMap fun (piece, i) =>
      if 0 < i && !(trimLineEnd piece).isEmpty then pad ++ piece else piece) =
        pieces.flatMap (padPiece pad) := by
  induction pieces generalizing i with
  | nil => rfl
  | cons piece pieces ih =>
    rw [List.zipIdx_cons, List.flatMap_cons, List.flatMap_cons, ih (i + 1)]
    cases h : (trimLineEnd piece).isEmpty <;> simp [padPiece, h]

/-- Behind the first piece, padding the pieces is padding the lines. -/
theorem flatMap_padPiece {ls : List (List Char)} (hclean : ∀ l ∈ ls, '\n' ∉ l) :
    (pieces (unlines ls)).flatMap (padPiece pad) = unlines (ls.map (padLine pad)) := by
  induction ls with
  | nil => rfl
  | cons line ls ih =>
    have hline := hclean line List.mem_cons_self
    cases ls with
    | nil =>
      rw [unlines_singleton, pieces_of_oneLine hline, List.map_singleton, unlines_singleton]
      split
      · next hempty =>
        rw [hempty, padLine_of_returns (by simp)]
        rfl
      · have hpiece : padPiece pad (line ++ []) = padLine pad line ++ [] :=
          padPiece_append hline (by simp)
        simpa using hpiece
    | cons next ls =>
      have hothers := ih fun l hl => hclean l (List.mem_cons_of_mem _ hl)
      calc (pieces (unlines (line :: next :: ls))).flatMap (padPiece pad)
        _ = padPiece pad (line ++ ['\n']) ++
            (pieces (unlines (next :: ls))).flatMap (padPiece pad) := by
          rw [unlines_cons line (List.cons_ne_nil _ _), pieces_cons_line hline,
            List.flatMap_cons]
        _ = padLine pad line ++ '\n' :: unlines ((next :: ls).map (padLine pad)) := by
          rw [hothers, padPiece_append hline (by simp), List.append_assoc, List.singleton_append]
        _ = unlines ((line :: next :: ls).map (padLine pad)) :=
          (unlines_cons _ (by simp)).symm

/-- Padding the pieces of a text is padding its lines, all but the first. -/
theorem indent_eq_unlines (pad : List Char) (h : lines text = first :: others) :
    indent pad text = unlines (first :: others.map (padLine pad)) := by
  have hclean : ∀ l ∈ first :: others, '\n' ∉ l := fun l hl => oneLine_of_mem_lines (h ▸ hl)
  have htext : text = unlines (first :: others) := by rw [← h, unlines_lines]
  have hfirst := hclean first List.mem_cons_self
  unfold indent
  split
  · next hempty =>
    have hpad : padLine pad = id := by
      funext line
      simp [padLine, List.isEmpty_iff.mp hempty]
    rw [hpad, List.map_id, htext]
  · cases others with
    | nil =>
      rw [htext, unlines_singleton, pieces_of_oneLine hfirst]
      by_cases hempty : first = [] <;> simp [hempty, unlines_singleton]
    | cons second others =>
      rw [htext, unlines_cons first (List.cons_ne_nil _ _), pieces_cons_line hfirst,
        List.zipIdx_cons, List.flatMap_cons, flatMap_zipIdx_succ,
        flatMap_padPiece fun l hl => hclean l (List.mem_cons_of_mem _ hl),
        unlines_cons first (by simp)]
      simp

/-- The line of a carriage return is left alone, and there is no line to pad behind the last line
feed. -/
example : indent ['\t'] "a;\r\n\r\nb;\n".toList = "a;\r\n\r\n\tb;\n".toList := by
  decide +kernel

/-! ### Lines -/

theorem lines_indent (hpad : '\n' ∉ pad) (h : lines text = first :: others) :
    lines (indent pad text) = first :: others.map (padLine pad) := by
  have hclean : ∀ l ∈ first :: others, '\n' ∉ l := fun l hl => oneLine_of_mem_lines (h ▸ hl)
  have honeLine : ∀ l ∈ first :: others.map (padLine pad), '\n' ∉ l := by
    intro l hl
    rcases List.mem_cons.mp hl with rfl | hl
    · exact hclean _ List.mem_cons_self
    · obtain ⟨original, horiginal, rfl⟩ := List.mem_map.mp hl
      exact oneLine_padLine hpad (hclean original (List.mem_cons_of_mem _ horiginal))
  rw [indent_eq_unlines pad h]
  exact lines_unlines honeLine (List.cons_ne_nil _ _)

theorem getElem?_lines_indent (hpad : '\n' ∉ pad) (text : List Char) (j : Nat) :
    (lines (indent pad text))[j]? =
      (lines text)[j]?.map fun line => if j = 0 then line else padLine pad line := by
  obtain ⟨first, others, hlines⟩ := List.exists_cons_of_ne_nil (lines_ne_nil text)
  rw [lines_indent hpad hlines, hlines]
  cases j with
  | zero => rfl
  | succ j => simp

theorem length_lines_indent (hpad : '\n' ∉ pad) (text : List Char) :
    (lines (indent pad text)).length = (lines text).length := by
  obtain ⟨first, others, hlines⟩ := List.exists_cons_of_ne_nil (lines_ne_nil text)
  rw [lines_indent hpad hlines, hlines, List.length_cons, List.length_map, List.length_cons]

/-- Padding on top of padding is padding by both, the outer one in front. -/
theorem indent_indent (hpad : '\n' ∉ pad) (outer text : List Char) :
    indent outer (indent pad text) = indent (outer ++ pad) text := by
  obtain ⟨first, others, hlines⟩ := List.exists_cons_of_ne_nil (lines_ne_nil text)
  calc indent outer (indent pad text)
    _ = unlines (first :: (others.map (padLine pad)).map (padLine outer)) := by
      rw [indent_eq_unlines outer (lines_indent hpad hlines)]
    _ = unlines (first :: others.map (padLine (outer ++ pad))) := by
      simp only [List.map_map, Function.comp_def, padLine_padLine]
    _ = indent (outer ++ pad) text := (indent_eq_unlines _ hlines).symm

end Text

/-! ## White space in front of a line -/

namespace Line

variable {pad : List Char}

/-- White space ends no block comment. -/
theorem commentAfter_true_blanks (hpad : ∀ c ∈ pad, Text.isSpace c) (line : List Char) :
    commentAfter true (pad ++ line) = commentAfter true line := by
  induction pad with
  | nil => rfl
  | cons c pad ih =>
    have hc : c ≠ '*' := by
      rintro rfl
      exact absurd (hpad '*' List.mem_cons_self) (by decide)
    rw [List.cons_append, commentAfter_true_cons hc]
    exact ih fun d hd => hpad d (List.mem_cons_of_mem _ hd)

theorem commentAfter_padLine (hpad : ∀ c ∈ pad, Text.isSpace c) (commented : Bool)
    (line : List Char) :
    commentAfter commented (Text.padLine pad line) = commentAfter commented line := by
  unfold Text.padLine
  split
  · rfl
  · cases commented with
    | false => exact commentAfter_blanks hpad line
    | true => exact commentAfter_true_blanks hpad line

theorem directive?_padLine (hpad : ∀ c ∈ pad, Text.isSpace c) (plan : Plan) (commented : Bool)
    (line : List Char) :
    directive? plan commented (Text.padLine pad line) = directive? plan commented line := by
  unfold Text.padLine
  split
  · rfl
  · cases commented with
    | false => exact directive?_blanks hpad line
    | true => rfl

theorem commentedNext_padLine (hpad : ∀ c ∈ pad, Text.isSpace c) (plan : Plan) (commented : Bool)
    (line : List Char) :
    commentedNext plan commented (Text.padLine pad line) = commentedNext plan commented line := by
  simp only [commentedNext, directive?_padLine hpad, commentAfter_padLine hpad]

theorem commentedAt_indent (hline : '\n' ∉ pad) (hpad : ∀ c ∈ pad, Text.isSpace c) (plan : Plan)
    (text : List Char) (j : Nat) :
    commentedAt plan (Text.indent pad text) j = commentedAt plan text j := by
  obtain ⟨first, others, hlines⟩ := List.exists_cons_of_ne_nil (Text.lines_ne_nil text)
  rw [commentedAt, commentedAt, Text.lines_indent hline hlines, hlines]
  cases j with
  | zero => rfl
  | succ j =>
    simp only [List.take_succ_cons, List.foldl_cons, ← List.map_take, List.foldl_map,
      commentedNext_padLine hpad]

theorem directiveAt?_indent (hline : '\n' ∉ pad) (hpad : ∀ c ∈ pad, Text.isSpace c) (plan : Plan)
    (text : List Char) (j : Nat) :
    directiveAt? plan (Text.indent pad text) j = directiveAt? plan text j := by
  rw [directiveAt?, directiveAt?, Text.getElem?_lines_indent hline, commentedAt_indent hline hpad,
    Option.bind_map]
  congr 1
  funext line
  by_cases hj : j = 0
  · simp only [Function.comp_apply, if_pos hj]
  · simp only [Function.comp_apply, if_neg hj, directive?_padLine hpad]

end Line

/-! ## Scans -/

namespace Visit

variable {σ : Type} {w : Weaver σ} {v : Visit σ} {j : Nat} {cur : Cursor} {q : Pass σ}
  {d : Directive}

/-- The scan comes to line `j`, and begins it inside a block comment or not. On the line it
acts on the directive that is found there, if there is one, and on nothing else. -/
def Recognises (v : Visit σ) (w : Weaver σ) (j : Nat) (commented : Bool)
    (found : Option Directive) : Prop :=
  (∃ cur q, v.Stands w (Text.before v.text j) (Text.remaining v.text j) cur q ∧
    cur.mode = .atStart commented ∧ cur.line = j) ∧
  ∀ d, (∃ cur q, v.Acts w j d cur q) ↔ found = some d

/-- At the start of a line the cursor knows the line and whether it is commented out. -/
theorem Stands.of_before
    (h : v.Stands w (Text.before v.text j) (Text.remaining v.text j) cur q) :
    cur.mode = .atStart (Line.commentedAt w.plan v.text j) ∧ cur.line = j := by
  induction j generalizing cur q with
  | zero =>
    rw [Text.before_zero, Text.remaining_zero] at h
    obtain ⟨rfl, -⟩ := h.unique (v.stands_start w)
    rw [Line.commentedAt_zero]
    exact ⟨rfl, rfl⟩
  | succ j ih =>
    have hlt := Text.lt_length_of_eq_before_append h.1
    have hj : j < (Text.lines v.text).length := by omega
    have hline : (Text.lines v.text)[j]? = some (Text.lines v.text)[j] :=
      List.getElem?_eq_getElem hj
    -- the scan has begun the line in front, and has come here by that line and its line feed
    rw [Text.before_succ hline] at h
    obtain ⟨cur₀, q₀, hstart, hadvance⟩ := h.split
    rw [List.append_assoc, List.singleton_append, ← Text.remaining_eq_cons hline hlt] at hstart
    obtain ⟨hmode, hnumber⟩ := ih hstart
    have honeLine := Text.oneLine_of_mem_lines (List.mem_of_getElem? hline)
    obtain ⟨hmode', hnumber'⟩ := Weaver.advance_lineFeed hmode honeLine hadvance
    rw [Line.commentedAt_succ hline, hmode', hnumber', hnumber]
    exact ⟨rfl, rfl⟩

theorem Stands.exists_acts
    (h : v.Stands w (Text.before v.text j) (Text.remaining v.text j) cur q)
    (hd : Line.directiveAt? w.plan v.text j = some d) : ∃ cur q, v.Acts w j d cur q := by
  obtain ⟨hmode, hnumber⟩ := h.of_before
  obtain ⟨line, hline, hdirective⟩ := Option.bind_eq_some_iff.mp hd
  rw [Line.commented_eq_false hdirective] at hmode hdirective
  obtain ⟨done, rest, hbehind, hstart, hread⟩ := h.before_directive hmode hline hdirective
  refine ⟨_, _, done, rest, hbehind, Weaver.actsOn?_eq_some_iff.mpr ⟨hstart, ?_, hread⟩⟩
  rw [← hnumber]
  rfl

/-- What a scan that comes to a line makes of it is seen from the text. -/
theorem Begins.recognises (h : v.Begins w j q) :
    v.Recognises w j (Line.commentedAt w.plan v.text j) (Line.directiveAt? w.plan v.text j) := by
  obtain ⟨cur, hstands⟩ := h
  refine ⟨⟨cur, q, hstands, hstands.of_before⟩, fun d => ⟨?_, hstands.exists_acts⟩⟩
  rintro ⟨_, _, hacts⟩
  exact hacts.directiveAt?

end Visit

/-- Padding that lies on one line leaves a text with as many lines as it has. The first line,
and lines that hold nothing but carriage returns, are as before, and all others have the padding
in front. Two paddings are one padding by both. If the padding is white space, every line has
the same directive, or none, and is commented out or not as before, whatever the placeholders
are; and all scans that come to the line, in the text or in the padded text, take it as such. -/
theorem padding_keeps_lines {pad : List Char} (hpad : '\n' ∉ pad) (text : List Char) :
    (Text.lines (Text.indent pad text)).length = (Text.lines text).length ∧
    (∀ j line, (Text.lines text)[j]? = some line →
      (j = 0 ∨ (∀ c ∈ line, c = '\r') →
        (Text.lines (Text.indent pad text))[j]? = some line) ∧
      (j ≠ 0 → (∃ c ∈ line, c ≠ '\r') →
        (Text.lines (Text.indent pad text))[j]? = some (pad ++ line))) ∧
    (∀ outer, Text.indent outer (Text.indent pad text) = Text.indent (outer ++ pad) text) ∧
    ((∀ c ∈ pad, Text.isSpace c) → ∀ plan j,
      Line.commentedAt plan (Text.indent pad text) j = Line.commentedAt plan text j ∧
      Line.directiveAt? plan (Text.indent pad text) j = Line.directiveAt? plan text j ∧
      ∀ {σ : Type} (w : Weaver σ) (v : Visit σ) (q : Pass σ), w.plan = plan →
        v.text = text ∨ v.text = Text.indent pad text → v.Begins w j q →
        v.Recognises w j (Line.commentedAt plan text j) (Line.directiveAt? plan text j)) := by
  refine ⟨Text.length_lines_indent hpad text, ?_, fun outer => Text.indent_indent hpad outer text,
    ?_⟩
  · intro j line hline
    rw [Text.getElem?_lines_indent hpad, hline, Option.map_some]
    constructor
    · rintro (hj | hreturns)
      · rw [if_pos hj]
      · rw [Text.padLine_of_returns hreturns, ite_self]
    · intro hj hcontent
      rw [if_neg hj, Text.padLine_of_content hcontent]
  · intro hspace plan j
    have hcommented := Line.commentedAt_indent hpad hspace plan text j
    have hdirective := Line.directiveAt?_indent hpad hspace plan text j
    refine ⟨hcommented, hdirective, ?_⟩
    rintro σ w v q rfl htext hbegins
    have hrecognises := hbegins.recognises
    rcases htext with htext | htext
    · rwa [htext] at hrecognises
    · rwa [htext, hcommented, hdirective] at hrecognises

namespace Sample

/-- A comment that takes two lines, a line that holds a carriage return, and a placeholder. -/
def spread : Segment :=
  { placeholder := ⟨"#pragma Z", ""⟩, name := "spread", snippet := "/*\na */\n\r\n#pragma X\nb" }

/-- The scan of the segment at the third column. -/
def spreadVisit : Visit Library :=
  ⟨1, spread.unit 2, { stock := {} }⟩

end Sample

/-- The second line is padded inside the comment, the third one is not, and the scan of the
padded text finds the placeholder on the fourth. -/
theorem padding_keeps_lines_sample :
    (Text.lines Sample.spreadVisit.text).length = 5 ∧
    (Text.lines Sample.spreadVisit.text)[1]? = some ([' ', ' '] ++ ['a', ' ', '*', '/']) ∧
    (Text.lines Sample.spreadVisit.text)[2]? = some ['\r'] ∧
    Sample.spreadVisit.Recognises Sample.reader 1 true none ∧
    Sample.spreadVisit.Recognises Sample.reader 3 false (some (.placeholder "#pragma X")) := by
  have hpad : '\n' ∉ List.replicate 2 ' ' := by decide
  have hspace : ∀ c ∈ List.replicate 2 ' ', Text.isSpace c := by
    intro c hc
    rw [List.eq_of_mem_replicate hc]
    decide
  have htext : Sample.spreadVisit.text =
      Text.indent (List.replicate 2 ' ') Sample.spread.snippet.toList := by
    simp only [Visit.text, Sample.spreadVisit, Segment.unit, String.toList_ofList]
  have hsecond : ∃ q, (Sample.reader.advance (Sample.reader.below 1) Sample.spreadVisit.unit.key
      { column := Sample.spreadVisit.pass.output.lineWidth }
      (Text.before Sample.spreadVisit.text 1) (Text.remaining Sample.spreadVisit.text 1)).run
        Sample.spreadVisit.pass = .ok ⟨.blockComment .inside, 1, 0⟩ q := by decide +kernel
  have hfourth : ∃ q, (Sample.reader.advance (Sample.reader.below 1) Sample.spreadVisit.unit.key
      { column := Sample.spreadVisit.pass.output.lineWidth }
      (Text.before Sample.spreadVisit.text 3) (Text.remaining Sample.spreadVisit.text 3)).run
        Sample.spreadVisit.pass = .ok ⟨.lineStart, 3, 0⟩ q := by decide +kernel
  obtain ⟨q, hsecond⟩ := hsecond
  obtain ⟨q', hfourth⟩ := hfourth
  have hbegins : Sample.spreadVisit.Begins Sample.reader 1 q := ⟨_, by decide +kernel, hsecond⟩
  have hbegins' : Sample.spreadVisit.Begins Sample.reader 3 q' := ⟨_, by decide +kernel, hfourth⟩
  obtain ⟨hlength, hlines, -, hreads⟩ := padding_keeps_lines hpad Sample.spread.snippet.toList
  have hcommented : Line.commentedAt Sample.reader.plan Sample.spread.snippet.toList 1 = true ∧
      Line.directiveAt? Sample.reader.plan Sample.spread.snippet.toList 1 = none := by
    decide +kernel
  have hfound : Line.commentedAt Sample.reader.plan Sample.spread.snippet.toList 3 = false ∧
      Line.directiveAt? Sample.reader.plan Sample.spread.snippet.toList 3 =
        some (.placeholder "#pragma X") := by decide +kernel
  have hrecognises := (hreads hspace Sample.reader.plan 1).2.2 Sample.reader Sample.spreadVisit q
    rfl (Or.inr htext) hbegins
  have hrecognises' := (hreads hspace Sample.reader.plan 3).2.2 Sample.reader Sample.spreadVisit q'
    rfl (Or.inr htext) hbegins'
  rw [hcommented.1, hcommented.2] at hrecognises
  rw [hfound.1, hfound.2] at hrecognises'
  have hfive : (Text.lines Sample.spread.snippet.toList).length = 5 ∧
      (Text.lines Sample.spread.snippet.toList)[1]? = some ['a', ' ', '*', '/'] ∧
      (Text.lines Sample.spread.snippet.toList)[2]? = some ['\r'] := by decide +kernel
  have hpadded := (hlines 1 _ hfive.2.1).2 (by decide) ⟨'a', by decide, by decide⟩
  have hreturn := (hlines 2 _ hfive.2.2).1 (Or.inr (by simp))
  rw [htext, hlength]
  exact ⟨hfive.1, hpadded, hreturn, hrecognises, hrecognises'⟩

end ShaderWeave
