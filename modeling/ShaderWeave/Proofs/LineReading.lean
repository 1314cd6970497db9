import Mathlib.Data.List.TakeWhile
import Mathlib.Tactic.SplitIfs
import ShaderWeave.Scan.Directive
import ShaderWeave.Scan.Mode
import ShaderWeave.Proofs.Lines

/-!
# Reading a text line by line

What the lines of a text are, said without the modes of the scan: a line either
consists of a directive or is plain, and that depends on the line alone and on
whether it begins inside a block comment. Comments are found by reading the
line from left to right.

## Main definitions

- `Line.commentAfter`: is a block comment open behind a line?
- `Line.directive?`: the directive that a line consists of.
- `Line.commentedAt`, `Line.directiveAt?`: the same for a line of a text.
- `Line.quiet`: lines without directives, and the comment they leave open.

## Main results

- `Mode.isComment_foldl`: the modes of the scan follow `Line.commentAfter`.
-/

namespace ShaderWeave

namespace Line

/-- Is a block comment open behind the line, given whether one is open in front
of it? Two slashes make a comment of the rest of the line. -/
def commentAfter : Bool → List Char → Bool
  | commented, [] => commented
  | true, '*' :: '/' :: rest => commentAfter false rest
  | true, _ :: rest => commentAfter true rest
  | false, '/' :: '/' :: _ => false
  | false, '/' :: '*' :: rest => commentAfter true rest
  | false, _ :: rest => commentAfter false rest

/-- The directive that the line consists of, white space in front apart. A line
that begins inside a block comment holds no directive. -/
def directive? (plan : Plan) (commented : Bool) (line : List Char) : Option Directive :=
  if commented then none else Directive.read? plan (line.dropWhile Text.isSpace)

/-- Does the line behind this one begin inside a block comment? No comment begins
on a directive line. -/
def commentedNext (plan : Plan) (commented : Bool) (line : List Char) : Bool :=
  (directive? plan commented line).isNone && commentAfter commented line

/-- Does line `j` of the text begin inside a block comment? Lines are counted
from zero. -/
def commentedAt (plan : Plan) (text : List Char) (j : Nat) : Bool :=
  ((Text.lines text).take j).foldl (commentedNext plan) false

/-- The directive that line `j` of the text consists of. -/
def directiveAt? (plan : Plan) (text : List Char) (j : Nat) : Option Directive :=
  (Text.lines text)[j]?.bind (directive? plan (commentedAt plan text j))

/-- Read lines that hold no directive, and tell whether a block comment is open
behind them. There is no answer if one of them does hold a directive. -/
def quiet (plan : Plan) : Bool → List (List Char) → Option Bool
  | commented, [] => some commented
  | commented, line :: ls =>
    if directive? plan commented line = none then quiet plan (commentAfter commented line) ls
    else none

/-! ### One character -/

theorem commentAfter_false_cons {c : Char} (hc : c ≠ '/') (rest : List Char) :
    commentAfter false (c :: rest) = commentAfter false rest := by
  rw [commentAfter] <;> simp [hc]

theorem commentAfter_true_cons {c : Char} (hc : c ≠ '*') (rest : List Char) :
    commentAfter true (c :: rest) = commentAfter true rest := by
  rw [commentAfter]
  simp [hc]

theorem commentAfter_slash {c : Char} (hslash : c ≠ '/') (hstar : c ≠ '*') (rest : List Char) :
    commentAfter false ('/' :: c :: rest) = commentAfter false (c :: rest) := by
  rw [commentAfter] <;> simp [hslash, hstar]

theorem commentAfter_star {c : Char} (hc : c ≠ '/') (rest : List Char) :
    commentAfter true ('*' :: c :: rest) = commentAfter true (c :: rest) := by
  rw [commentAfter]
  simp [hc]

theorem commentAfter_blanks {blanks : List Char} (h : ∀ c ∈ blanks, Text.isSpace c)
    (line : List Char) : commentAfter false (blanks ++ line) = commentAfter false line := by
  induction blanks with
  | nil => rfl
  | cons c blanks ih =>
    have hc : c ≠ '/' := by
      rintro rfl
      exact absurd (h '/' List.mem_cons_self) (by decide)
    rw [List.cons_append, commentAfter_false_cons hc]
    exact ih fun d hd => h d (List.mem_cons_of_mem _ hd)

end Line

/-! ## Comments and modes -/

namespace Mode

/-- Is the scan inside a block comment? -/
def isComment : Mode → Bool
  | blockComment _ => true
  | _ => false

/-- The mode at the start of a line. -/
def atStart (commented : Bool) : Mode :=
  if commented then blockComment .inside else lineStart

/-- Neither at a place where a directive may begin nor on a directive line. -/
def Busy (m : Mode) : Prop :=
  m ≠ lineStart ∧ ∀ replaced, m ≠ directive replaced

/-- What the mode still remembers: is a comment open, and which characters may
go together with the next ones? -/
def pending : Mode → Bool × List Char
  | lineStart | code | directive _ => (false, [])
  | slash => (false, ['/'])
  | lineComment => (false, ['/', '/'])
  | blockComment .inside => (true, [])
  | blockComment .afterStar => (true, ['*'])

theorem Busy.next {m : Mode} (h : m.Busy) {c : Char} (hc : c ≠ '\n') : (m.next c).Busy := by
  cases m with
  | lineStart => exact absurd rfl h.1
  | directive replaced => exact absurd rfl (h.2 replaced)
  | slash =>
    simp only [Mode.next, hc, if_false]
    split_ifs <;> simp [Busy]
  | lineComment => simp [Mode.next, hc, Busy]
  | blockComment point =>
    cases point with
    | inside => simp [Mode.next, Busy]
    | afterStar =>
      simp only [Mode.next]
      split_ifs <;> simp [Busy]
  | code =>
    simp only [Mode.next, hc, if_false]
    split_ifs <;> simp [Busy]

/-- Reading a character moves the mode as it moves the reading of comments. -/
theorem commentAfter_next (m : Mode) (hm : ∀ replaced, m ≠ directive replaced) {c : Char}
    (hc : c ≠ '\n') (rest : List Char) :
    Line.commentAfter (m.next c).pending.1 ((m.next c).pending.2 ++ rest) =
      Line.commentAfter m.pending.1 (m.pending.2 ++ c :: rest) := by
  cases m with
  | directive replaced => exact absurd rfl (hm replaced)
  | lineStart =>
    simp only [Mode.next]
    split_ifs with hspace hslash
    · have hne : c ≠ '/' := by
        rintro rfl
        exact absurd hspace (by decide)
      exact (Line.commentAfter_false_cons hne rest).symm
    · rw [hslash]
      rfl
    · exact (Line.commentAfter_false_cons hslash rest).symm
  | code =>
    simp only [Mode.next, hc, if_false]
    split_ifs with hslash
    · rw [hslash]
      rfl
    · exact (Line.commentAfter_false_cons hslash rest).symm
  | slash =>
    simp only [Mode.next, hc, if_false]
    split_ifs with hslash hstar
    · rw [hslash]
      rfl
    · rw [hstar]
      rfl
    · have hskip := Line.commentAfter_slash hslash hstar rest
      exact (hskip.trans (Line.commentAfter_false_cons hslash rest)).symm
  | lineComment =>
    simp only [Mode.next, hc, if_false]
    rfl
  | blockComment point =>
    cases point with
    | inside =>
      simp only [Mode.next]
      split_ifs with hstar
      · rw [hstar]
        rfl
      · exact (Line.commentAfter_true_cons hstar rest).symm
    | afterStar =>
      simp only [Mode.next]
      split_ifs with hslash hstar
      · rw [hslash]
        rfl
      · rw [hstar]
        exact (Line.commentAfter_star (by decide) rest).symm
      · have hskip := Line.commentAfter_star hslash rest
        exact (hskip.trans (Line.commentAfter_true_cons hstar rest)).symm

theorem next_ne_directive {m : Mode} (hm : ∀ replaced, m ≠ directive replaced) {c : Char}
    (replaced : Bool) : m.next c ≠ directive replaced := by
  cases m with
  | directive replaced => exact absurd rfl (hm replaced)
  | blockComment point => cases point <;> (simp only [Mode.next]; split_ifs <;> simp)
  | _ => simp only [Mode.next]; split_ifs <;> simp

theorem foldl_next_ne_directive {m : Mode} (hm : ∀ replaced, m ≠ directive replaced)
    (line : List Char) (replaced : Bool) : line.foldl next m ≠ directive replaced := by
  induction line generalizing m with
  | nil => exact hm replaced
  | cons c line ih => exact ih (next_ne_directive hm)

theorem atStart_ne_directive (commented replaced : Bool) :
    atStart commented ≠ directive replaced := by
  cases commented <;> simp [atStart]

theorem isComment_eq (m : Mode) : m.isComment = Line.commentAfter m.pending.1 m.pending.2 := by
  cases m with
  | blockComment point => cases point <;> rfl
  | _ => rfl

/-- The scan of a line ends inside a block comment just if the line leaves one
open. -/
theorem isComment_foldl (m : Mode) (hm : ∀ replaced, m ≠ directive replaced)
    {line : List Char} (hline : '\n' ∉ line) :
    (line.foldl next m).isComment = Line.commentAfter m.pending.1 (m.pending.2 ++ line) := by
  induction line generalizing m with
  | nil => simpa using isComment_eq m
  | cons c line ih =>
    obtain ⟨hc, hrest⟩ := Text.oneLine_cons hline
    rw [List.foldl_cons, ih (m.next c) (next_ne_directive hm) hrest]
    exact commentAfter_next m hm hc line

/-- Only an open block comment outlasts the end of a line. -/
theorem next_lineFeed {m : Mode} (hm : ∀ replaced, m ≠ directive replaced) :
    m.next '\n' = atStart m.isComment := by
  cases m with
  | directive replaced => exact absurd rfl (hm replaced)
  | lineStart => decide
  | blockComment point => cases point <;> rfl
  | _ => rfl

theorem isComment_foldl_atStart (commented : Bool) {line : List Char} (hline : '\n' ∉ line) :
    (line.foldl next (atStart commented)).isComment = Line.commentAfter commented line := by
  cases commented with
  | false => exact isComment_foldl lineStart (by simp) hline
  | true => exact isComment_foldl (blockComment .inside) (by simp) hline

end Mode

/-! ## Directives of a line -/

/-- The text is at an end, or goes on with a line feed. -/
def Text.EndsLine (rest : List Char) : Prop :=
  rest = [] ∨ ∃ next, rest = '\n' :: next

/-- A text is cut at the end of a line in one way only. -/
theorem Text.EndsLine.cut {line tail front rest : List Char} (htail : Text.EndsLine tail)
    (hfront : '\n' ∉ front) (h : line ++ tail = front ++ rest) :
    ∃ body, line = front ++ body ∧ rest = body ++ tail := by
  rcases List.append_eq_append_iff.mp h with ⟨body, hbody, htail'⟩ | ⟨body, hbody, hrest⟩
  · rcases htail with rfl | ⟨next, rfl⟩
    · simp only [List.nil_eq, List.append_eq_nil_iff] at htail'
      obtain ⟨rfl, rfl⟩ := htail'
      exact ⟨[], by simpa using hbody.symm, by simp⟩
    · cases body with
      | nil => exact ⟨[], by simpa using hbody.symm, by simpa using htail'.symm⟩
      | cons c body =>
        have hc : c = '\n' := (List.cons.inj htail').1.symm
        exact absurd (by simp [hbody, hc]) hfront
  · exact ⟨body, hbody, hrest⟩

theorem Text.firstLine_append {line rest : List Char} (hline : '\n' ∉ line)
    (hrest : Text.EndsLine rest) : Text.firstLine (line ++ rest) = line := by
  have hall : ∀ c ∈ line, (c != '\n') = true := by
    intro c hc
    have hne : c ≠ '\n' := by
      rintro rfl
      exact hline hc
    simp [hne]
  rw [Text.firstLine, List.takeWhile_append_of_pos hall]
  rcases hrest with rfl | ⟨next, rfl⟩
  · simp
  · simp

theorem Text.firstLine_eq_iff {text line : List Char} :
    Text.firstLine text = line ↔
      ∃ rest, text = line ++ rest ∧ '\n' ∉ line ∧ Text.EndsLine rest := by
  constructor
  · rintro rfl
    refine ⟨text.dropWhile (· != '\n'), List.takeWhile_append_dropWhile.symm, ?_, ?_⟩
    · intro hmem
      simpa using List.mem_takeWhile_imp hmem
    · have hnot := List.head?_dropWhile_not (· != '\n') text
      cases hrest : text.dropWhile (· != '\n') with
      | nil => exact Or.inl rfl
      | cons c rest =>
        rw [hrest] at hnot
        exact Or.inr ⟨rest, by simpa using hnot⟩
  · rintro ⟨rest, rfl, hline, hrest⟩
    exact Text.firstLine_append hline hrest

theorem Text.isPrefixOf_append {word line rest : List Char} (hword : '\n' ∉ word)
    (hrest : Text.EndsLine rest) : word.isPrefixOf (line ++ rest) = word.isPrefixOf line := by
  induction word generalizing line with
  | nil => simp
  | cons c word ih =>
    obtain ⟨hc, hwordRest⟩ := Text.oneLine_cons hword
    cases line with
    | nil =>
      rcases hrest with rfl | ⟨next, rfl⟩
      · rfl
      · simp [List.isPrefixOf, hc]
    | cons d line =>
      have htail : word.isPrefixOf (line ++ rest) = word.isPrefixOf line :=
        ih hwordRest
      simp [List.isPrefixOf, htail]

/-- The directive that begins at a place is seen from the line alone. -/
theorem Directive.read?_append (plan : Plan) {line rest : List Char} (hline : '\n' ∉ line)
    (hrest : Text.EndsLine rest) :
    Directive.read? plan (line ++ rest) = Directive.read? plan line := by
  cases line with
  | nil =>
    rcases hrest with rfl | ⟨next, rfl⟩
    · rfl
    · simp only [List.nil_append, Directive.read?]
      rw [if_pos (Or.inl (by decide))]
  | cons c line =>
    have hfirst := Text.firstLine_append hline hrest
    have hself : Text.firstLine (c :: line) = c :: line := by
      simpa using Text.firstLine_append hline (Or.inl rfl)
    have hword : inclusionWord.isPrefixOf (c :: line ++ rest) =
        inclusionWord.isPrefixOf (c :: line) := Text.isPrefixOf_append (by decide) hrest
    have hplan : plan.placeholderAt? (c :: line ++ rest) = plan.placeholderAt? (c :: line) := by
      simp only [Plan.placeholderAt?_eq, hfirst, hself]
    simp only [List.cons_append] at hfirst hword hplan
    simp only [List.cons_append, Directive.read?, hfirst, hself, hword, hplan]

namespace Line

variable {plan : Plan}

theorem directive?_blanks {blanks : List Char} (h : ∀ c ∈ blanks, Text.isSpace c)
    (line : List Char) : directive? plan false (blanks ++ line) = directive? plan false line := by
  simp [directive?, List.dropWhile_append_of_pos h]

/-- A line with a directive behind white space is cut where the directive begins. -/
theorem directive?_of_read? {blanks body : List Char} {d : Directive}
    (h : ∀ c ∈ blanks, Text.isSpace c) (hread : Directive.read? plan body = some d) :
    directive? plan false (blanks ++ body) = some d ∧
      (blanks ++ body).takeWhile Text.isSpace = blanks := by
  cases body with
  | nil => cases hread
  | cons c body =>
    have hc : Text.isSpace c = false := by
      cases hspace : Text.isSpace c with
      | false => rfl
      | true =>
        rw [Directive.read?, if_pos (Or.inl hspace)] at hread
        cases hread
    rw [directive?_blanks h, List.takeWhile_append_of_pos h]
    simp [directive?, hc, hread]

theorem directive?_of_blank {line : List Char} (h : ∀ c ∈ line, Text.isSpace c)
    (commented : Bool) : directive? plan commented line = none := by
  have hnil : line.dropWhile Text.isSpace = [] := List.dropWhile_eq_nil_iff.mpr h
  unfold directive?
  rw [hnil]
  split <;> rfl

theorem commented_eq_false {commented : Bool} {line : List Char} {d : Directive}
    (h : directive? plan commented line = some d) : commented = false := by
  cases commented with
  | false => rfl
  | true => cases h

theorem quiet_append (commented : Bool) (ls ms : List (List Char)) :
    quiet plan commented (ls ++ ms) = (quiet plan commented ls).bind (quiet plan · ms) := by
  induction ls generalizing commented with
  | nil => rfl
  | cons line ls ih =>
    simp only [List.cons_append, quiet]
    split
    · exact ih _
    · rfl

theorem quiet_singleton {commented : Bool} {line : List Char}
    (h : directive? plan commented line = none) :
    quiet plan commented [line] = some (commentAfter commented line) := by
  simp [quiet, h]

/-! ### The lines of a text -/

variable {text line : List Char} {j : Nat}

@[simp]
theorem commentedAt_zero : commentedAt plan text 0 = false := by
  simp [commentedAt]

theorem commentedAt_succ (h : (Text.lines text)[j]? = some line) :
    commentedAt plan text (j + 1) = commentedNext plan (commentedAt plan text j) line := by
  simp [commentedAt, List.take_add_one, h]

theorem directiveAt?_eq (h : (Text.lines text)[j]? = some line) :
    directiveAt? plan text j = directive? plan (commentedAt plan text j) line := by
  simp [directiveAt?, h]

end Line

end ShaderWeave
