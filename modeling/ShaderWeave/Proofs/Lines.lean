import Mathlib.Data.List.Basic
import ShaderWeave.Text.Line

/-!
# Texts line by line

A text is taken apart at its line feeds. The lines in front of a given line
carry their line feeds with them, and the rest of the text begins with that
line, so a scan that stands at the start of a line has read the one part and
has the other before it.

## Main definitions

- `Text.ended`: the text of lines that all end in a line feed.
- `Text.before`, `Text.remaining`: the parts of a text in front of and behind the
  start of a line.
-/

namespace ShaderWeave.Text

/-- The text of lines each of which ends in a line feed. -/
def ended (ls : List (List Char)) : List Char :=
  ls.flatMap (· ++ ['\n'])

@[simp]
theorem ended_nil : ended [] = [] := rfl

@[simp]
theorem ended_append (ls ms : List (List Char)) : ended (ls ++ ms) = ended ls ++ ended ms :=
  List.flatMap_append

@[simp]
theorem ended_singleton (l : List Char) : ended [l] = l ++ ['\n'] := by
  simp [ended]

theorem unlines_singleton (l : List Char) : unlines [l] = l := by
  simp [unlines]

theorem unlines_cons (l : List Char) {ls : List (List Char)} (h : ls ≠ []) :
    unlines (l :: ls) = l ++ '\n' :: unlines ls := by
  simp [unlines, List.intercalate_cons_of_ne_nil h]

theorem unlines_append (ls : List (List Char)) {ms : List (List Char)} (h : ms ≠ []) :
    unlines (ls ++ ms) = ended ls ++ unlines ms := by
  induction ls with
  | nil => rfl
  | cons l ls ih =>
    rw [List.cons_append, unlines_cons l (by simp [h]), ih]
    simp [ended]

theorem oneLine_cons {c : Char} {line : List Char} (h : '\n' ∉ c :: line) :
    c ≠ '\n' ∧ '\n' ∉ line := by
  rw [List.mem_cons, not_or] at h
  exact ⟨Ne.symm h.1, h.2⟩

theorem oneLine_append {a b : List Char} (h : '\n' ∉ a ++ b) : '\n' ∉ a ∧ '\n' ∉ b := by
  rw [List.mem_append, not_or] at h
  exact h

theorem lines_ne_nil (text : List Char) : lines text ≠ [] :=
  List.splitOn_ne_nil '\n' text

theorem oneLine_of_mem_lines {text l : List Char} (h : l ∈ lines text) : '\n' ∉ l := by
  induction text generalizing l with
  | nil =>
    have hl : l = [] := by simpa [lines] using h
    simp [hl]
  | cons c text ih =>
    unfold lines at h ih
    rw [List.splitOn_cons_eq_if_modifyHead] at h
    split at h
    · rcases List.mem_cons.mp h with rfl | h
      · simp
      · exact ih h
    · next hc =>
      obtain ⟨first, others, hls⟩ := List.exists_cons_of_ne_nil (List.splitOn_ne_nil '\n' text)
      rw [hls] at h ih
      rcases List.mem_cons.mp h with rfl | h
      · have hfirst := ih List.mem_cons_self
        have hne : c ≠ '\n' := by
          rintro rfl
          exact hc (by simp)
        simp [hfirst, hne.symm]
      · exact ih (List.mem_cons_of_mem _ h)

theorem lines_unlines {ls : List (List Char)} (h : ∀ l ∈ ls, '\n' ∉ l) (hne : ls ≠ []) :
    lines (unlines ls) = ls :=
  List.splitOn_intercalate '\n' h hne

/-- Even a text of no lines has a line, the empty one. -/
theorem length_lines_unlines {ls : List (List Char)} (h : ∀ l ∈ ls, '\n' ∉ l) :
    (lines (unlines ls)).length = max 1 ls.length := by
  cases ls with
  | nil => rfl
  | cons l ls =>
    rw [lines_unlines h (by simp), List.length_cons]
    omega

theorem count_ended {ls : List (List Char)} (h : ∀ l ∈ ls, '\n' ∉ l) :
    (ended ls).count '\n' = ls.length := by
  induction ls with
  | nil => rfl
  | cons l ls ih =>
    have hl : l.count '\n' = 0 := List.count_eq_zero.mpr (h l List.mem_cons_self)
    have hrest := ih fun l' hl' => h l' (List.mem_cons_of_mem _ hl')
    have hsplit : ended (l :: ls) = l ++ ['\n'] ++ ended ls := rfl
    rw [hsplit, List.count_append, List.count_append, hl, hrest]
    simp [Nat.add_comm]

/-- A text consists of lines that end in a line feed, and a last line that does not. -/
theorem exists_ended_append (text : List Char) :
    ∃ ls last, lines text = ls ++ [last] ∧ text = ended ls ++ last ∧ (∀ l ∈ ls, '\n' ∉ l) ∧
      '\n' ∉ last := by
  rcases List.eq_nil_or_concat' (lines text) with hnil | ⟨ls, last, hlines⟩
  · exact absurd hnil (lines_ne_nil text)
  · have hclean : ∀ l ∈ ls ++ [last], '\n' ∉ l := by
      intro l hl
      exact oneLine_of_mem_lines (hlines ▸ hl)
    refine ⟨ls, last, hlines, ?_, fun l hl => hclean l (by simp [hl]), hclean last (by simp)⟩
    rw [← unlines_lines text, hlines, unlines_append _ (by simp), unlines_singleton]

/-! ## The start of a line -/

/-- The lines of a text in front of line `j`, with their line feeds. Lines are
counted from zero. -/
def before (text : List Char) (j : Nat) : List Char :=
  ended ((lines text).take j)

/-- The text from the start of line `j` on. -/
def remaining (text : List Char) (j : Nat) : List Char :=
  unlines ((lines text).drop j)

@[simp]
theorem before_zero (text : List Char) : before text 0 = [] := by
  simp [before]

@[simp]
theorem remaining_zero (text : List Char) : remaining text 0 = text := by
  simp [remaining]

theorem before_succ {text l : List Char} {j : Nat} (h : (lines text)[j]? = some l) :
    before text (j + 1) = before text j ++ (l ++ ['\n']) := by
  simp [before, List.take_add_one, h]

theorem remaining_eq_cons {text l : List Char} {j : Nat} (h : (lines text)[j]? = some l)
    (hlt : j + 1 < (lines text).length) :
    remaining text j = l ++ '\n' :: remaining text (j + 1) := by
  obtain ⟨hj, rfl⟩ := List.getElem?_eq_some_iff.mp h
  rw [remaining, List.drop_eq_getElem_cons hj, unlines_cons _ (by simp [hlt])]
  rfl

theorem remaining_eq_last {text l : List Char} {j : Nat} (h : (lines text)[j]? = some l)
    (hlast : j + 1 = (lines text).length) : remaining text j = l := by
  obtain ⟨hj, rfl⟩ := List.getElem?_eq_some_iff.mp h
  rw [remaining, List.drop_eq_getElem_cons hj, hlast, List.drop_length, unlines_singleton]

theorem lines_ended_append {ls : List (List Char)} (h : ∀ l ∈ ls, '\n' ∉ l) (text : List Char) :
    lines (ended ls ++ text) = ls ++ lines text := by
  induction ls with
  | nil => rfl
  | cons l ls ih =>
    have hl : '\n' ∉ l := h l List.mem_cons_self
    have hsplit : ended (l :: ls) ++ text = l ++ '\n' :: (ended ls ++ text) := by
      simp [ended]
    have hrest := ih fun l' hl' => h l' (List.mem_cons_of_mem _ hl')
    unfold lines at hrest ⊢
    rw [hsplit, List.splitOn_append_cons_self_of_not_mem hl, hrest]
    rfl

/-- Every place in a text lies on one of its lines. -/
theorem exists_before_append {text done rest : List Char} (h : text = done ++ rest) :
    done.count '\n' < (lines text).length ∧
    ∃ front, done = before text (done.count '\n') ++ front ∧ '\n' ∉ front ∧
      remaining text (done.count '\n') = front ++ rest := by
  -- the last line of `done` is what has been read of its line
  obtain ⟨ls, front, -, hdone, hended, hfront⟩ := exists_ended_append done
  have hcount : done.count '\n' = ls.length := by
    rw [hdone, List.count_append, count_ended hended, List.count_eq_zero.mpr hfront]
    rfl
  have hlines : lines text = ls ++ lines (front ++ rest) := by
    rw [h, hdone, List.append_assoc, lines_ended_append hended]
  refine ⟨?_, front, ?_, hfront, ?_⟩
  · have hpos := List.length_pos_iff.mpr (lines_ne_nil (front ++ rest))
    rw [hcount, hlines, List.length_append]
    omega
  · rw [hcount, before, hlines, List.take_left, hdone]
  · rw [hcount, remaining, hlines, List.drop_left, unlines_lines]

theorem lt_length_of_eq_before_append {text : List Char} {j : Nat}
    (h : text = before text j ++ remaining text j) : j < (lines text).length := by
  have htotal := (exists_before_append (List.append_nil text).symm).1
  by_contra hge
  have hall : before text j = ended (lines text) := by
    rw [before, List.take_of_length_le (by omega)]
  have hcount := congrArg (List.count '\n') h
  rw [List.count_append, hall, count_ended fun l hl => oneLine_of_mem_lines hl] at hcount
  omega

end ShaderWeave.Text
