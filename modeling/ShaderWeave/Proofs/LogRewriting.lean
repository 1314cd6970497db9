import Mathlib.Data.List.Forall2
import ShaderWeave.CompilerLog.Resolve
import ShaderWeave.Proofs.LineReading

/-!
# Rewriting a log line by line

A mention counts at the start of a line only, so behind it the line is copied. What becomes
of a line does not depend on the lines in front of it; where no mention goes beyond the end
of its line, it does not depend on the lines behind it either, and the log is rewritten line
by line.

## Main definitions

- `CompilerLog.Rewrites`: what becomes of a line, whatever lines follow.

## Main results

- `CompilerLog.rewrites_of_mention`: a line that begins with a mention.
- `CompilerLog.rewrites_self`: a line that nothing is replaced in.
- `CompilerLog.replaceAll_unlines`: a log is rewritten line by line.
- `Mention.bare?_append`, `Mention.tagged?_append`: mentions of both forms are found.
- `Mention.bare?_eq_none`, `Mention.tagged?_eq_none`: how a mention of either form begins.
-/

namespace ShaderWeave

namespace CompilerLog

variable {form : List Char → Option Mention} {origins : Array Location} {line line' : List Char}

/-! ## Characters behind the start of a line -/

theorem replaceMentions_copy (hline : '\n' ∉ line) (rest : List Char) :
    replaceMentions form origins false 0 (line ++ rest) =
      line ++ replaceMentions form origins false 0 rest := by
  induction line with
  | nil => rfl
  | cons c line ih =>
    obtain ⟨hc, hline⟩ := Text.oneLine_cons hline
    have hstep : replaceMentions form origins false 0 (c :: (line ++ rest)) =
        c :: replaceMentions form origins (c == '\n') 0 (line ++ rest) := rfl
    rw [List.cons_append, hstep, beq_false_of_ne hc, ih hline, List.cons_append]

theorem replaceMentions_skip (hline : '\n' ∉ line) (rest : List Char) :
    replaceMentions form origins false line.length (line ++ rest) =
      replaceMentions form origins false 0 rest := by
  induction line with
  | nil => rfl
  | cons c line ih =>
    obtain ⟨hc, hline⟩ := Text.oneLine_cons hline
    have hstep : replaceMentions form origins false (line.length + 1) (c :: (line ++ rest)) =
        replaceMentions form origins (c == '\n') line.length (line ++ rest) := rfl
    rw [List.cons_append, List.length_cons, hstep, beq_false_of_ne hc, ih hline]

/-! ## Lines -/

/-- Whatever follows the line, the line is replaced by `line'` and the rewriting stands at
its end. -/
def Rewrites (form : List Char → Option Mention) (origins : Array Location)
    (line line' : List Char) : Prop :=
  ∀ rest, Text.EndsLine rest →
    replaceAll form origins (line ++ rest) = line' ++ replaceMentions form origins false 0 rest

/-- A mention of a line that has an origin is replaced, and the rest of its line is
copied. -/
theorem rewrites_of_mention {place tail replacement : List Char} {m : Mention}
    (hne : place ≠ []) (hplace : '\n' ∉ place) (htail : '\n' ∉ tail)
    (hform : ∀ rest, Text.EndsLine rest → form (place ++ (tail ++ rest)) = some m)
    (hlength : m.length = place.length) (hreplacement : m.replacement? origins = some replacement) :
    Rewrites form origins (place ++ tail) (replacement ++ tail) := by
  intro rest hrest
  have hm := hform rest hrest
  obtain ⟨c, place, rfl⟩ := List.exists_cons_of_ne_nil hne
  obtain ⟨hc, hplace⟩ := Text.oneLine_cons hplace
  have hskip : m.length - 1 = place.length := by simp [hlength]
  rw [List.append_assoc, List.cons_append, replaceAll, replaceMentions]
  rw [List.cons_append] at hm
  simp only [if_true, hm, Option.bind_eq_bind, Option.bind_some, hreplacement, Option.pure_def,
    hskip, beq_false_of_ne hc]
  rw [replaceMentions_skip hplace, replaceMentions_copy htail, List.append_assoc]

/-- A line at whose start nothing is replaced stays as it is. -/
theorem rewrites_self (hne : line ≠ []) (hline : '\n' ∉ line)
    (hnone : ∀ rest, Text.EndsLine rest →
      (form (line ++ rest)).bind (·.replacement? origins) = none) :
    Rewrites form origins line line := by
  intro rest hrest
  have hstart := hnone rest hrest
  obtain ⟨c, line, rfl⟩ := List.exists_cons_of_ne_nil hne
  obtain ⟨hc, hline⟩ := Text.oneLine_cons hline
  have hfound : (do
      let m ← form (c :: (line ++ rest))
      let replacement ← m.replacement? origins
      return (replacement, m.length)) = none := by
    rw [Option.bind_eq_none_iff] at hstart
    exact Option.bind_eq_none_iff.mpr fun m hm => by simp [hstart m hm]
  rw [List.cons_append, replaceAll, replaceMentions]
  simp only [if_true, hfound, beq_false_of_ne hc]
  rw [replaceMentions_copy hline, List.cons_append]

/-- A log is rewritten line by line. -/
theorem replaceAll_unlines {ls ls' : List (List Char)}
    (h : List.Forall₂ (Rewrites form origins) ls ls') :
    replaceAll form origins (Text.unlines ls) = Text.unlines ls' := by
  induction h with
  | nil => rfl
  | @cons line line' ls ls' hline hlines ih =>
    by_cases hlast : ls = []
    · subst hlast
      obtain rfl := List.forall₂_nil_left_iff.mp hlines
      have hend := hline [] (Or.inl rfl)
      rw [List.append_nil] at hend
      rw [Text.unlines_singleton, Text.unlines_singleton, hend]
      exact List.append_nil line'
    · have hlast' : ls' ≠ [] := by
        rintro rfl
        exact hlast (List.forall₂_nil_right_iff.mp hlines)
      have hfeed : replaceMentions form origins false 0 ('\n' :: Text.unlines ls) =
          '\n' :: replaceAll form origins (Text.unlines ls) := rfl
      rw [Text.unlines_cons line hlast, Text.unlines_cons line' hlast',
        hline _ (Or.inr ⟨_, rfl⟩), hfeed, ih]

end CompilerLog

/-! ## Where a mention begins -/

/-- A digit is no white space, whatever script it is of. -/
theorem Text.isSpace_eq_false_of_isDecimalDigit {c : Char} (h : Text.isDecimalDigit c) :
    Text.isSpace c = false := by
  have hapart : ∀ r ∈ Text.decimalDigitRanges, ∀ s ∈ Text.spaceRanges, r.2 < s.1 ∨ s.2 < r.1 := by
    decide
  obtain ⟨r, hr, hlow, hhigh⟩ := (Text.RangeTable.contains_iff _ c).mp h
  by_contra hspace
  rw [Bool.not_eq_false] at hspace
  obtain ⟨s, hs, hlow', hhigh'⟩ := (Text.RangeTable.contains_iff _ c).mp hspace
  rcases hapart r hr s hs with hlt | hlt <;> omega

/-- A tag begins with a letter. -/
theorem LogTag.exists_word_eq (tag : LogTag) :
    ∃ c letters, tag.word = c :: letters ∧ Text.isDecimalDigit c = false := by
  cases tag with
  | error => exact ⟨'E', "RROR".toList, by decide, by decide⟩
  | warning => exact ⟨'W', "ARNING".toList, by decide, by decide⟩

theorem LogTag.oneLine_lead (tag : Option LogTag) : '\n' ∉ lead tag := by
  cases tag with
  | none => exact List.not_mem_nil
  | some tag => cases tag <;> decide

namespace Mention

variable {text digits rest : List Char}

theorem replacement?_eq (m : Mention) (origins : Array Location) :
    m.replacement? origins =
      (m.origin? origins).map fun l => LogTag.lead m.tag ++ l.reference.toList := by
  unfold replacement?
  cases m.origin? origins <;> rfl

theorem digits?_append (hne : digits ≠ []) (hdigits : ∀ c ∈ digits, Text.isDecimalDigit c)
    (hrest : ∀ c ∈ rest.head?, Text.isDecimalDigit c = false) :
    digits? (digits ++ rest) = some (digits, rest) := by
  have htake : rest.takeWhile Text.isDecimalDigit = [] ∧
      rest.dropWhile Text.isDecimalDigit = rest := by
    cases rest with
    | nil => exact ⟨rfl, rfl⟩
    | cons c rest => simp [hrest c rfl]
  obtain ⟨c, digits, rfl⟩ := List.exists_cons_of_ne_nil hne
  rw [digits?, List.takeWhile_append_of_pos hdigits, List.dropWhile_append_of_pos hdigits,
    htake.1, htake.2, List.append_nil]

theorem digits?_eq_none (h : ∀ c ∈ text.head?, Text.isDecimalDigit c = false) :
    digits? text = none := by
  cases text with
  | nil => rfl
  | cons c text => simp [digits?, h c rfl]

theorem after?_append (beginning rest : List Char) :
    after? beginning (beginning ++ rest) = some rest := by
  simp [after?]

theorem after?_singleton (c : Char) (rest : List Char) : after? [c] (c :: rest) = some rest :=
  after?_append [c] rest

/-- A bare mention begins with a digit. -/
theorem bare?_eq_none (h : ∀ c ∈ text.head?, Text.isDecimalDigit c = false) :
    bare? text = none := by
  simp [bare?, digits?_eq_none h]

/-- A tagged mention begins with the first letter of its tag. -/
theorem taggedWith?_eq_none {tag : LogTag} (h : text.head? ≠ tag.word.head?) :
    taggedWith? tag text = none := by
  have hword : after? (tag.word ++ [':']) text = none := by
    obtain ⟨c, letters, hletters, -⟩ := tag.exists_word_eq
    rw [hletters] at h ⊢
    cases text with
    | nil => rfl
    | cons d text =>
      have hc : c ≠ d := by
        rintro rfl
        exact h rfl
      simp [after?, hc]
  simp only [taggedWith?, hword, Option.bind_eq_bind, Option.bind_none]

theorem tagged?_eq_none (h : ∀ tag : LogTag, text.head? ≠ tag.word.head?) :
    tagged? text = none := by
  rw [tagged?, taggedWith?_eq_none (h .error), taggedWith?_eq_none (h .warning)]
  rfl

section

variable {string number : List Char} (hstring : string ≠ [] ∧ ∀ c ∈ string, Text.isDecimalDigit c)
  (hnumber : number ≠ [] ∧ ∀ c ∈ number, Text.isDecimalDigit c)
include hstring hnumber

theorem bare?_append (rest : List Char) :
    bare? (string ++ '(' :: (number ++ ')' :: rest)) =
      some ⟨none, number, string.length + 1 + number.length + 1⟩ := by
  have hopen : ∀ c ∈ ('(' :: (number ++ ')' :: rest)).head?, Text.isDecimalDigit c = false := by
    intro c hc
    cases hc
    decide
  have hclose : ∀ c ∈ (')' :: rest).head?, Text.isDecimalDigit c = false := by
    intro c hc
    cases hc
    decide
  simp only [bare?, digits?_append hstring.1 hstring.2 hopen,
    digits?_append hnumber.1 hnumber.2 hclose, after?_singleton, Option.bind_eq_bind,
    Option.bind_some, Option.pure_def]

theorem tagged?_append (tag : LogTag) {blank rest : List Char}
    (hblank : ∀ c ∈ blank, Text.isSpace c)
    (hrest : ∀ c ∈ rest.head?, Text.isDecimalDigit c = false) :
    tagged? (tag.word ++ ':' :: (blank ++ (string ++ ':' :: (number ++ rest)))) =
      some ⟨tag, number,
        tag.word.length + 1 + blank.length + string.length + 1 + number.length⟩ := by
  have hcolon : ∀ c ∈ (':' :: (number ++ rest)).head?, Text.isDecimalDigit c = false := by
    intro c hc
    cases hc
    decide
  have hstop : ∀ text : List Char, (string ++ text).takeWhile Text.isSpace = [] ∧
      (string ++ text).dropWhile Text.isSpace = string ++ text := by
    intro text
    obtain ⟨c, string, rfl⟩ := List.exists_cons_of_ne_nil hstring.1
    have hc := Text.isSpace_eq_false_of_isDecimalDigit (hstring.2 c List.mem_cons_self)
    simp [hc]
  have hword : ∀ text, after? (tag.word ++ [':']) (tag.word ++ ':' :: text) = some text := by
    intro text
    simpa using after?_append (tag.word ++ [':']) text
  have htag : taggedWith? tag (tag.word ++ ':' :: (blank ++ (string ++ ':' :: (number ++ rest)))) =
      some ⟨tag, number,
        tag.word.length + 1 + blank.length + string.length + 1 + number.length⟩ := by
    simp only [taggedWith?, hword, List.takeWhile_append_of_pos hblank,
      List.dropWhile_append_of_pos hblank, hstop, List.append_nil,
      digits?_append hstring.1 hstring.2 hcolon, digits?_append hnumber.1 hnumber.2 hrest,
      after?_singleton, Option.bind_eq_bind, Option.bind_some, Option.pure_def]
  cases tag with
  | error =>
    rw [tagged?, htag]
    rfl
  | warning =>
    have hother : ∀ text, taggedWith? .error (LogTag.warning.word ++ text) = none := by
      intro text
      apply taggedWith?_eq_none
      change some 'W' ≠ some 'E'
      decide
    rw [tagged?, htag, hother]
    rfl

end

end Mention

end ShaderWeave
