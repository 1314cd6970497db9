import ShaderWeave.Proofs.Failure
import ShaderWeave.Proofs.Verbatim

/-!
# Comments of a whole text

Comments are found here by the ordinary rules, in a text as a whole and not from line
to line: two slashes make a comment of the rest of the line, and a slash and a star
open one that goes on to the next star and slash. The modes of the scan are shown to
follow these rules. So a text without directives is woven as it stands if its block
comments all end, and is a fault otherwise.

## Main definitions

- `Text.afterComment?`: what stands behind the end of a block comment.
- `Text.openComment?`: the block comment that is open at the end of a text.
- `Text.Plain`: no line of a text holds a directive.

## Main results

- `Mode.point?_foldl`: the modes of the scan follow the rules for comments.
- `Line.quiet_of_plain`: the same, line by line.
- `plain_text_woven_verbatim`: what comes of a text without directives.
-/

namespace ShaderWeave

namespace Text

/-- What stands behind the next star and slash, if there are any. -/
def afterComment? : List Char → Option (List Char)
  | [] => none
  | '*' :: '/' :: rest => some rest
  | _ :: rest => afterComment? rest

theorem length_lt_of_afterComment? {text rest : List Char} (h : afterComment? text = some rest) :
    rest.length < text.length := by
  fun_induction afterComment? text with
  | case1 => cases h
  | case2 rest' =>
    cases h
    simp only [List.length_cons]
    omega
  | case3 c text _ ih =>
    have hlt := ih h
    simp only [List.length_cons]
    omega

/-- What stands behind the slash and star of the block comment that is open at the end
of the text, if one is open there. -/
def openComment? (text : List Char) : Option (List Char) :=
  match text with
  | [] => none
  | '/' :: '/' :: rest => openComment? (rest.dropWhile (· != '\n'))
  | '/' :: '*' :: rest =>
    match _hafter : afterComment? rest with
    | none => some rest
    | some after => openComment? after
  | _ :: rest => openComment? rest
termination_by text.length
decreasing_by
  · have hle := (List.dropWhile_sublist (· != '\n') (l := rest)).length_le
    simp only [List.length_cons]
    omega
  · have hlt := length_lt_of_afterComment? _hafter
    simp only [List.length_cons]
    omega
  · simp only [List.length_cons]
    omega

end Text

namespace Mode

/-- Where in a block comment the scan stands, if it stands in one. -/
def point? : Mode → Option CommentPoint
  | blockComment point => some point
  | _ => none

theorem point?_eq_some {m : Mode} {point : CommentPoint} :
    m.point? = some point ↔ m = blockComment point := by
  cases m <;> simp [point?]

theorem isComment_eq_isSome (m : Mode) : m.isComment = m.point?.isSome := by
  cases m <;> rfl

end Mode

/-- Where the scan stands in a block comment that holds the given text. -/
def CommentPoint.behind (body : List Char) : CommentPoint :=
  if body.getLast? = some '*' then .afterStar else .inside

theorem CommentPoint.behind_cons (c : Char) {body : List Char} (h : body ≠ []) :
    behind (c :: body) = behind body := by
  obtain ⟨d, rest, rfl⟩ := List.exists_cons_of_ne_nil h
  simp [behind, List.getLast?_cons_cons]

namespace Mode

/-! ## Modes and comments -/

/-- A star that no slash follows makes no difference. -/
theorem next_afterStar {c : Char} (hc : c ≠ '/') :
    (blockComment .afterStar).next c = (blockComment .inside).next c := by
  simp [Mode.next, hc]

theorem foldl_next_star {rest : List Char} (hne : rest ≠ []) (hrest : rest.head? ≠ some '/') :
    rest.foldl next (blockComment .afterStar) = rest.foldl next (blockComment .inside) := by
  obtain ⟨c, rest, rfl⟩ := List.exists_cons_of_ne_nil hne
  have hc : c ≠ '/' := by
    rintro rfl
    exact hrest rfl
  rw [List.foldl_cons, List.foldl_cons, next_afterStar hc]

/-- A block comment that does not end goes on to the end of the text. -/
theorem foldl_next_open {body : List Char} (h : Text.afterComment? body = none) :
    body.foldl next (blockComment .inside) = blockComment (.behind body) := by
  fun_induction Text.afterComment? body with
  | case1 => rfl
  | case2 rest => cases h
  | case3 c rest hnot ih =>
    by_cases hnil : rest = []
    · subst hnil
      by_cases hc : c = '*' <;> simp [Mode.next, CommentPoint.behind, hc]
    · rw [CommentPoint.behind_cons c hnil, ← ih h, List.foldl_cons]
      by_cases hc : c = '*'
      · subst hc
        apply foldl_next_star hnil
        intro hhead
        obtain ⟨rest', rfl⟩ := List.head?_eq_some_iff.mp hhead
        exact hnot rest' rfl rfl
      · simp [Mode.next, hc]

/-- The end of a block comment leaves the scan in code. -/
theorem foldl_next_closed {body rest : List Char} (h : Text.afterComment? body = some rest) :
    body.foldl next (blockComment .inside) = rest.foldl next code := by
  fun_induction Text.afterComment? body with
  | case1 => cases h
  | case2 rest' =>
    cases h
    rfl
  | case3 c body hnot ih =>
    have hnil : body ≠ [] := by
      rintro rfl
      cases h
    rw [← ih h, List.foldl_cons]
    by_cases hc : c = '*'
    · subst hc
      apply foldl_next_star hnil
      intro hhead
      obtain ⟨body', rfl⟩ := List.head?_eq_some_iff.mp hhead
      exact hnot body' rfl rfl
    · simp [Mode.next, hc]

/-- A line comment goes on to the end of its line. -/
theorem point?_foldl_lineComment (text : List Char) :
    (text.foldl next lineComment).point? =
      ((text.dropWhile (· != '\n')).foldl next lineStart).point? := by
  induction text with
  | nil => rfl
  | cons c text ih =>
    by_cases hc : c = '\n'
    · subst hc
      rfl
    · have hdrop : (c :: text).dropWhile (· != '\n') = text.dropWhile (· != '\n') := by
        simp [hc]
      rw [hdrop, ← ih, List.foldl_cons, Mode.next, if_neg hc]

/-- Outside comments, the scan of a text ends where the text leaves a block comment
open. -/
theorem point?_foldl (text : List Char) {m : Mode} (hm : m = lineStart ∨ m = code) :
    (text.foldl next m).point? = (Text.openComment? text).map .behind := by
  fun_induction Text.openComment? text generalizing m with
  | case1 => rcases hm with rfl | rfl <;> rfl
  | case2 rest ih =>
    have hslashes : (m.next '/').next '/' = lineComment := by
      rcases hm with rfl | rfl <;> decide
    rw [List.foldl_cons, List.foldl_cons, hslashes, point?_foldl_lineComment]
    exact ih (Or.inl rfl)
  | case3 rest hafter =>
    have hopens : (m.next '/').next '*' = blockComment .inside := by
      rcases hm with rfl | rfl <;> decide
    rw [List.foldl_cons, List.foldl_cons, hopens, foldl_next_open hafter]
    rfl
  | case4 rest after hafter ih =>
    have hopens : (m.next '/').next '*' = blockComment .inside := by
      rcases hm with rfl | rfl <;> decide
    rw [List.foldl_cons, List.foldl_cons, hopens, foldl_next_closed hafter]
    exact ih (Or.inr rfl)
  | case5 c rest hline hblock ih =>
    by_cases hc : c = '/'
    · subst hc
      have hslash : m.next '/' = slash := by
        rcases hm with rfl | rfl <;> decide
      rw [List.foldl_cons, hslash, ← ih (Or.inr rfl)]
      -- the slash opens no comment, so it could as well be code
      cases rest with
      | nil => rfl
      | cons d rest =>
        have hd : d ≠ '/' ∧ d ≠ '*' :=
          ⟨fun h => hline rest rfl (h ▸ rfl), fun h => hblock rest rfl (h ▸ rfl)⟩
        simp [Mode.next, hd.1, hd.2]
    · rw [List.foldl_cons]
      apply ih
      rcases hm with rfl | rfl
      · simp only [Mode.next, hc, if_false]
        split_ifs <;> simp
      · simp only [Mode.next, hc, if_false]
        split_ifs <;> simp

/-- At the start of a line nothing but an open block comment is left of the lines in
front of it. -/
theorem foldl_next_ended {ls : List (List Char)} (hclean : ∀ l ∈ ls, '\n' ∉ l)
    (commented : Bool) :
    (Text.ended ls).foldl next (atStart commented) =
      atStart (ls.foldl Line.commentAfter commented) := by
  induction ls generalizing commented with
  | nil => rfl
  | cons line ls ih =>
    have hline : '\n' ∉ line := hclean line List.mem_cons_self
    have hmode := foldl_next_ne_directive (atStart_ne_directive commented) line
    have hended : Text.ended (line :: ls) = line ++ '\n' :: Text.ended ls := by
      simp [Text.ended]
    rw [hended, List.foldl_append, List.foldl_cons, next_lineFeed hmode,
      isComment_foldl_atStart commented hline]
    exact ih (fun l hl => hclean l (List.mem_cons_of_mem _ hl)) _

end Mode

/-! ## Comments line by line -/

namespace Text

variable {text : List Char}

theorem isSome_openComment? (text : List Char) :
    (openComment? text).isSome = (text.foldl Mode.next .lineStart).isComment := by
  rw [Mode.isComment_eq_isSome, Mode.point?_foldl text (Or.inl rfl), Option.isSome_map]

/-- A line begins inside a block comment just if the lines in front of it leave one
open. -/
theorem isSome_openComment?_before (text : List Char) (j : Nat) :
    (openComment? (before text j)).isSome =
      ((lines text).take j).foldl Line.commentAfter false := by
  have hclean : ∀ l ∈ (lines text).take j, '\n' ∉ l :=
    fun l hl => oneLine_of_mem_lines (List.mem_of_mem_take hl)
  have hstart : (before text j).foldl Mode.next .lineStart =
      .atStart (((lines text).take j).foldl Line.commentAfter false) :=
    Mode.foldl_next_ended hclean false
  rw [isSome_openComment?, hstart]
  cases ((lines text).take j).foldl Line.commentAfter false <;> rfl

theorem isSome_openComment?_lines (text : List Char) :
    (openComment? text).isSome = (lines text).foldl Line.commentAfter false := by
  obtain ⟨ls, last, hlines, htext, hclean, hlast⟩ := exists_ended_append text
  have hstart : (ended ls).foldl Mode.next .lineStart =
      .atStart (ls.foldl Line.commentAfter false) := Mode.foldl_next_ended hclean false
  rw [isSome_openComment?, hlines, List.foldl_append, htext, List.foldl_append, hstart]
  exact Mode.isComment_foldl_atStart _ hlast

/-- No line that begins outside a block comment begins, white space apart, with the word
for an inclusion, or has the name of a placeholder for its content. -/
def Plain (plan : Plan) (text : List Char) : Prop :=
  ∀ j line, (lines text)[j]? = some line → openComment? (before text j) = none →
    ¬ Directive.inclusionWord <+: line.dropWhile isSpace ∧
      ∀ s ∈ plan.segments, s.placeholder.name ≠ "" →
        Line.trimmed line ≠ s.placeholder.name.toList

instance (plan : Plan) (text : List Char) : Decidable (Plain plan text) :=
  decidable_of_iff
    (∀ j, ∀ h : j < (lines text).length, openComment? (before text j) = none →
      ¬ Directive.inclusionWord <+: ((lines text).get ⟨j, h⟩).dropWhile isSpace ∧
        ∀ s ∈ plan.segments, s.placeholder.name ≠ "" →
          Line.trimmed ((lines text).get ⟨j, h⟩) ≠ s.placeholder.name.toList)
    ⟨fun h j line hline => by
      obtain ⟨hj, rfl⟩ := List.getElem?_eq_some_iff.mp hline
      exact h j hj,
    fun h j hj => h j _ (List.getElem?_eq_getElem hj)⟩

end Text

namespace Line

variable {plan : Plan}

/-- A line without the word for an inclusion that does not name a placeholder holds no
directive. -/
theorem directive?_of_unnamed {line : List Char} (hline : '\n' ∉ line) (commented : Bool)
    (hword : ¬ Directive.inclusionWord <+: line.dropWhile Text.isSpace)
    (hname : ∀ s ∈ plan.segments, s.placeholder.name ≠ "" →
      trimmed line ≠ s.placeholder.name.toList) :
    directive? plan commented line = none := by
  rw [directive?_eq_none_iff hline]
  intro _ d hasks
  cases hasks with
  | quoted hstarts _ => exact hword ⟨_, hstarts.symm⟩
  | unquoted hstarts _ => exact hword ⟨_, hstarts.symm⟩
  | named _ _ hcontent hne hregistered =>
    obtain ⟨s, hs, rfl⟩ := hregistered
    exact hname s hs hne hcontent

theorem quiet_of_forall {ls : List (List Char)} {commented : Bool}
    (h : ∀ i line, ls[i]? = some line →
      directive? plan ((ls.take i).foldl commentAfter commented) line = none) :
    quiet plan commented ls = some (ls.foldl commentAfter commented) := by
  induction ls generalizing commented with
  | nil => rfl
  | cons line ls ih =>
    have hfirst : directive? plan commented line = none := h 0 line rfl
    rw [quiet, if_pos hfirst, List.foldl_cons]
    exact ih fun i line' hline' => h (i + 1) line' hline'

theorem foldl_commentAfter_of_quiet {ls : List (List Char)} {commented commented' : Bool}
    (h : quiet plan commented ls = some commented') :
    ls.foldl commentAfter commented = commented' := by
  induction ls generalizing commented with
  | nil => exact Option.some.inj h
  | cons line ls ih =>
    rw [quiet] at h
    split at h
    · exact ih h
    · cases h

/-- The lines of a text without directives are quiet, and leave a block comment open just
if the text does. -/
theorem quiet_of_plain {text : List Char} (h : Text.Plain plan text) :
    quiet plan false (Text.lines text) = some (Text.openComment? text).isSome := by
  rw [Text.isSome_openComment?_lines]
  apply quiet_of_forall
  intro j line hline
  have honeLine : '\n' ∉ line := Text.oneLine_of_mem_lines (List.mem_of_getElem? hline)
  rw [← Text.isSome_openComment?_before]
  cases hopen : Text.openComment? (Text.before text j) with
  | some body => rfl
  | none =>
    obtain ⟨hword, hname⟩ := h j line hline hopen
    exact directive?_of_unnamed honeLine _ hword hname

end Line

/-! ## Weaving -/

namespace Weaver

variable {σ : Type} (w : Weaver σ) (descend : Location → SourceUnit → WeaveM σ Unit)

/-- Reading a unit without directives changes the output only, and leaves the scan in the
mode that the characters lead to one after the other. -/
theorem walk_of_quiet (unit : SourceUnit) {commented : Bool}
    (hquiet : Line.quiet w.plan false (Text.lines unit.text.toList) = some commented) (stock : σ) :
    ∃ cur o, (w.walk descend unit.key { column := 0 } unit.text.toList).run { stock := stock } =
        .ok cur { stock := stock, output := o } ∧
      cur.mode = unit.text.toList.foldl Mode.next .lineStart := by
  obtain ⟨ls, last, hlines, htext, hclean, hlast⟩ := Text.exists_ended_append unit.text.toList
  rw [hlines, Line.quiet_append] at hquiet
  obtain ⟨commented', hended, hlastQuiet⟩ := Option.bind_eq_some_iff.mp hquiet
  have hplain : Line.directive? w.plan commented' last = none := by
    by_contra hne
    simp [Line.quiet, hne] at hlastQuiet
  obtain ⟨s, -, -, hadvance⟩ := advance_ended w descend unit.key hclean hended (s := {})
    (p := { stock := stock }) rfl rfl 0 last
  let cur : Cursor := ⟨.atStart commented', 0 + ls.length, 0⟩
  let p : Pass σ := { stock := stock, output := s.output }
  have hrest : (w.walk descend unit.key cur last).run p = .ok (cur.past last) (p.write last) := by
    rw [walk_eq_advance]
    exact advance_plain rfl hlast hplain (Or.inl rfl)
  refine ⟨cur.past last, (p.write last).output, ?_, ?_⟩
  · rw [htext, walk_append, WeaveM.run_bind_eq_ok]
    exact ⟨cur, p, hadvance, hrest⟩
  · have hstart : (Text.ended ls).foldl Mode.next .lineStart =
        .atStart (ls.foldl Line.commentAfter false) := Mode.foldl_next_ended hclean false
    rw [htext, List.foldl_append, hstart, Line.foldl_commentAfter_of_quiet hended]
    rfl

/-- A unit without directives fails at its end if a block comment is open there. -/
theorem weave_of_open (unit : SourceUnit) {commented : Bool} {body : List Char}
    (hquiet : Line.quiet w.plan false (Text.lines unit.text.toList) = some commented)
    (hopen : Text.openComment? unit.text.toList = some body) (stock : σ) :
    ∃ o, w.weave unit stock = .error (.unterminated unit.key (.behind body))
      { stock := stock, output := o } := by
  obtain ⟨cur, o, hwalk, hmode⟩ := w.walk_of_quiet (w.below w.limit) unit hquiet stock
  have hpoint : cur.mode = .blockComment (.behind body) := by
    rw [hmode, ← Mode.point?_eq_some, Mode.point?_foldl _ (Or.inl rfl), hopen]
    rfl
  refine ⟨o, weave_eq_error_iff.mpr ?_⟩
  rw [walk_eq_advance] at hwalk
  have hread : (w.advance (w.below (w.root unit stock).room) unit.key
      { column := (w.root unit stock).pass.output.lineWidth } (w.root unit stock).text []).run
      (w.root unit stock).pass = .ok cur { stock := stock, output := o } := hwalk
  rw [Visit.Fails, Visit.run_unitAt]
  have hkey : (w.root unit stock).unit.key = unit.key := rfl
  simp only [hkey, hread, finish, hpoint]
  rfl

end Weaver

/-- A text without directives is woven as it stands if no block comment is open at its
end: each of its lines is then its own origin. If a block comment is open there, that
is a fault, which tells whether what stands in the comment ends in a star. Either way
the supplier is not asked for anything. -/
theorem plain_text_woven_verbatim {σ : Type} (w : Weaver σ) (unit : SourceUnit) (stock : σ)
    (h : Text.Plain w.plan unit.text.toList) :
    ∃ pass : Pass σ, pass.exchanges = #[] ∧ pass.stock = stock ∧
      match Text.openComment? unit.text.toList with
      | none => ∃ output, w.weave unit stock = .ok output pass ∧ output.text = unit.text ∧
          output.origins.toList =
            (List.range' 1 (Text.shownLines unit.text.toList).length).map (Location.mk unit.key)
      | some body => w.weave unit stock = .error (.unterminated unit.key
          (if body.getLast? = some '*' then .afterStar else .inside)) pass := by
  have hquiet := Line.quiet_of_plain h
  cases hopen : Text.openComment? unit.text.toList with
  | none =>
    rw [hopen] at hquiet
    obtain ⟨pass, hweave, hexchanges, hstock⟩ := w.weave_of_quiet unit hquiet stock
    exact ⟨pass, hexchanges, hstock, unit.verbatim, hweave, rfl, rfl⟩
  | some body =>
    obtain ⟨o, hweave⟩ := w.weave_of_open unit hquiet hopen stock
    exact ⟨{ stock := stock, output := o }, rfl, rfl, hweave⟩

namespace Sample

/-- All directives stand in comments, and the last comment lacks a slash to end it. -/
def commented : SourceUnit :=
  ⟨"main", "// #include \"a\"\n/* #pragma X\n#include \"a\" **/ #pragma X\nx / y; /*/ //\n" ++
    "#pragma Y *"⟩

def uncommented : SourceUnit :=
  ⟨"main", commented.text ++ "/"⟩

end Sample

theorem plain_text_woven_verbatim_sample :
    (∃ pass, Sample.reader.weave Sample.commented Sample.shelf =
        .error (.unterminated "main" .afterStar) pass ∧ pass.exchanges = #[]) ∧
    ∃ output pass, Sample.reader.weave Sample.uncommented Sample.shelf = .ok output pass ∧
      output.text = Sample.uncommented.text ∧ output.origins.size = 5 ∧ pass.exchanges = #[] := by
  have hplain : Text.Plain Sample.reader.plan Sample.commented.text.toList := by
    decide +kernel
  have hplain' : Text.Plain Sample.reader.plan Sample.uncommented.text.toList := by
    decide +kernel
  have hopen : Text.openComment? Sample.commented.text.toList =
      some "/ //\n#pragma Y *".toList := by decide +kernel
  have hclosed : Text.openComment? Sample.uncommented.text.toList = none := by decide +kernel
  constructor
  · obtain ⟨pass, hexchanges, -, hweave⟩ :=
      plain_text_woven_verbatim Sample.reader Sample.commented Sample.shelf hplain
    rw [hopen] at hweave
    exact ⟨pass, hweave, hexchanges⟩
  · obtain ⟨pass, hexchanges, -, hweave⟩ :=
      plain_text_woven_verbatim Sample.reader Sample.uncommented Sample.shelf hplain'
    rw [hclosed] at hweave
    obtain ⟨output, hweave, htext, horigins⟩ := hweave
    refine ⟨output, pass, hweave, htext, ?_, hexchanges⟩
    have hfive : (Text.shownLines Sample.uncommented.text.toList).length = 5 := by decide +kernel
    rw [← Array.length_toList, horigins, List.length_map, List.length_range', hfive]

end ShaderWeave
