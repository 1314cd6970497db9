import Mathlib.Data.List.Induction
import ShaderWeave.Proofs.LogRewriting

/-!
# The parts of a compiler log

What a mention looks like is said here without the functions that look for one, and a log
is cut into the mentions that stand at the starts of its lines and into all other
characters. A mention with a tag may go over several lines, but no mention begins inside
another, so there is one way to cut a log.

## Main definitions

- `Mention.Spelled`: how a mention is written.
- `Text.startsLine`: does a line begin behind a text?
- `LogPart`, `LogPart.Cuts`: a log cut into its parts.

## Main results

- `Mention.Spelled.not_begins`: no mention begins inside another.
- `LogPart.exists_cuts`, `LogPart.Cuts.unique`: every log is cut in one way.
- `LogPart.Cuts.exists_mention`: every mention at the start of a line is a part.
-/

namespace ShaderWeave

/-! ## Starts of lines -/

namespace Text

/-- Does a line begin behind the text, given whether one begins in front of it? -/
def startsLine (atStart : Bool) (text : List Char) : Bool :=
  text.foldl (fun _ c => c == '\n') atStart

variable {text front : List Char}

theorem startsLine_append (atStart : Bool) (front text : List Char) :
    startsLine atStart (front ++ text) = startsLine (startsLine atStart front) text :=
  List.foldl_append

theorem startsLine_concat (atStart : Bool) (text : List Char) (c : Char) :
    startsLine atStart (text ++ [c]) = (c == '\n') := by
  rw [startsLine_append]
  rfl

theorem startsLine_lineFeed (atStart : Bool) (front text : List Char) :
    startsLine atStart (front ++ '\n' :: text) = startsLine true text := by
  rw [startsLine_append]
  rfl

theorem exists_of_startsLine {atStart : Bool} (h : startsLine atStart front = true)
    (hne : front ≠ []) : ∃ text, front = text ++ ['\n'] := by
  rcases List.eq_nil_or_concat' front with hnil | ⟨text, c, rfl⟩
  · exact absurd hnil hne
  · rw [startsLine_concat, beq_iff_eq] at h
    exact ⟨text, by rw [h]⟩

/-- A row of decimal digits of any script. -/
def Decimal (digits : List Char) : Prop :=
  digits ≠ [] ∧ ∀ c ∈ digits, isDecimalDigit c

theorem Decimal.oneLine {digits : List Char} (h : Decimal digits) : '\n' ∉ digits := by
  intro hmem
  exact absurd (h.2 '\n' hmem) (by decide)

/-- A text without line feeds lies behind every line feed of a text that ends in it. -/
theorem exists_of_append_eq {front inner line : List Char} (hline : '\n' ∉ line)
    (h : text ++ line = front ++ '\n' :: inner) :
    ∃ rest, inner = rest ++ line ∧ text = front ++ '\n' :: rest := by
  rw [← List.singleton_append, ← List.append_assoc] at h
  rcases List.append_eq_append_iff.mp h with ⟨rest, hfront, hlineEq⟩ | ⟨rest, htext, hinner⟩
  · rcases List.eq_nil_or_concat' rest with rfl | ⟨rest, c, rfl⟩
    · exact ⟨[], by simpa using hlineEq.symm, by simpa using hfront.symm⟩
    · rw [← List.append_assoc] at hfront
      obtain ⟨-, hc⟩ := List.append_inj' hfront rfl
      cases hc
      exact absurd (by simp [hlineEq]) hline
  · exact ⟨rest, hinner, by simpa using htext⟩

end Text

/-! ## How mentions are written -/

namespace Mention

/-- The mention is written as the second text, and `rest` follows it. -/
inductive Spelled : Mention → List Char → List Char → Prop where
  /-- The word of a tag, a colon, white space, and two numbers with a colon between them.
  The second number ends where its digits end. -/
  | tagged (tag : LogTag) {blank string number rest : List Char}
    (blank_space : ∀ c ∈ blank, Text.isSpace c) (string_digits : Text.Decimal string)
    (number_digits : Text.Decimal number)
    (apart : ∀ c ∈ rest.head?, Text.isDecimalDigit c = false) :
    Spelled
      ⟨tag, number, tag.word.length + 1 + blank.length + string.length + 1 + number.length⟩
      (tag.word ++ ':' :: (blank ++ (string ++ ':' :: number))) rest
  /-- Two numbers, the second in parentheses. -/
  | bare {string number rest : List Char} (string_digits : Text.Decimal string)
    (number_digits : Text.Decimal number) :
    Spelled ⟨none, number, string.length + 1 + number.length + 1⟩
      (string ++ '(' :: (number ++ [')'])) rest

/-- The text begins with a mention. -/
def Begins (text : List Char) : Prop :=
  ∃ m written rest, text = written ++ rest ∧ Spelled m written rest

variable {m m' : Mention} {text written written' rest rest' : List Char}

namespace Spelled

theorem ne_nil (h : m.Spelled written rest) : written ≠ [] := by
  cases h <;> simp

theorem length_eq (h : m.Spelled written rest) : m.length = written.length := by
  cases h with
  | tagged => simp; omega
  | bare => simp; omega

/-- A mention without a tag keeps to its line. -/
theorem oneLine (h : m.Spelled written rest) (htag : m.tag = none) : '\n' ∉ written := by
  cases h with
  | tagged => cases htag
  | bare hstring hnumber => simp [hstring.oneLine, hnumber.oneLine]

theorem startsLine_eq_false (h : m.Spelled written rest) (atStart : Bool) :
    Text.startsLine atStart written = false := by
  cases h with
  | @tagged tag blank string number _ _ _ hnumber _ =>
    obtain ⟨front, c, rfl⟩ := (List.eq_nil_or_concat' number).resolve_left hnumber.1
    have hc : c ≠ '\n' := by
      rintro rfl
      exact hnumber.oneLine (by simp)
    have hsplit : tag.word ++ ':' :: (blank ++ (string ++ ':' :: (front ++ [c]))) =
        tag.word ++ ':' :: (blank ++ (string ++ ':' :: front)) ++ [c] := by simp
    rw [hsplit, Text.startsLine_concat, beq_false_of_ne hc]
  | @bare string number _ _ _ =>
    have hsplit : string ++ '(' :: (number ++ [')']) = string ++ '(' :: number ++ [')'] := by simp
    rw [hsplit, Text.startsLine_concat]
    rfl

/-- Of what follows a mention only a digit in the first place can matter. -/
theorem congr (h : m.Spelled written rest)
    (hrest : ∀ c ∈ rest'.head?, Text.isDecimalDigit c → c ∈ rest.head?) :
    m.Spelled written rest' := by
  cases h with
  | tagged tag hblank hstring hnumber hapart =>
    refine .tagged tag hblank hstring hnumber fun c hc => ?_
    cases hdigit : Text.isDecimalDigit c with
    | false => rfl
    | true => exact hdigit.symm.trans (hapart c (hrest c hc hdigit))
  | bare hstring hnumber => exact .bare hstring hnumber

/-- What is written after a line feed does not matter to the mentions in front of it. -/
theorem append_lineFeed_iff {more : List Char} :
    m.Spelled written (rest ++ '\n' :: more) ↔ m.Spelled written rest := by
  constructor <;> intro h <;> refine h.congr fun c hc hdigit => ?_
  · simp [Option.mem_def.mp hc]
  · cases rest with
    | nil =>
      cases hc
      exact absurd hdigit (by decide)
    | cons d rest => exact hc

/-- What follows a mention without a tag does not matter. -/
theorem anywhere (h : m.Spelled written rest) (htag : m.tag = none) (rest' : List Char) :
    m.Spelled written rest' := by
  cases h with
  | tagged => cases htag
  | bare hstring hnumber => exact .bare hstring hnumber

/-- A mention begins with a digit, or with the first letter of a tag. -/
theorem head_cases (h : m.Spelled written rest) :
    ∃ c, written.head? = some c ∧
      (m.tag = none ∧ Text.isDecimalDigit c ∨
        ∃ tag, m.tag = some tag ∧ tag.word.head? = some c ∧ Text.isDecimalDigit c = false) := by
  cases h with
  | tagged tag =>
    obtain ⟨c, letters, hword, hletter⟩ := tag.exists_word_eq
    exact ⟨c, by simp [hword], Or.inr ⟨tag, rfl, by simp [hword], hletter⟩⟩
  | @bare string _ _ hstring =>
    obtain ⟨c, digits, rfl⟩ := List.exists_cons_of_ne_nil hstring.1
    exact ⟨c, by simp, Or.inl ⟨rfl, hstring.2 c List.mem_cons_self⟩⟩

/-- The characters of a mention behind its first line feed are white space up to the two
numbers. -/
theorem exists_blank (h : m.Spelled written rest) {front inner : List Char}
    (hsplit : written = front ++ '\n' :: inner) :
    ∃ blank string number, inner = blank ++ (string ++ ':' :: number) ∧
      (∀ c ∈ blank, Text.isSpace c) ∧ Text.Decimal string := by
  cases h with
  | bare hstring hnumber =>
    have hline : '\n' ∉ front ++ '\n' :: inner := by
      rw [← hsplit]
      simp [hstring.oneLine, hnumber.oneLine]
    exact absurd (by simp) hline
  | @tagged tag blank string number _ hblank hstring hnumber _ =>
    have hnumbers : '\n' ∉ string ++ ':' :: number := by
      simp [hstring.oneLine, hnumber.oneLine]
    have hword : '\n' ∉ tag.word ++ [':'] := by cases tag <;> decide
    have hcut : tag.word ++ [':'] ++ blank ++ (string ++ ':' :: number) =
        front ++ '\n' :: inner := by simpa using hsplit
    obtain ⟨tail, hinner, hfront⟩ := Text.exists_of_append_eq hnumbers hcut
    refine ⟨tail, string, number, hinner, fun c hc => hblank c ?_, hstring⟩
    rcases List.append_eq_append_iff.mp hfront with ⟨more, -, hmore⟩ | ⟨more, hmore, htail⟩
    · simp [hmore, hc]
    · cases more with
      | nil => simp [← show '\n' :: tail = blank from htail, hc]
      | cons d more =>
        obtain ⟨rfl, -⟩ := List.cons.inj htail
        exact absurd (by simp [hmore]) hword

end Spelled

/-! ## Looking for a mention -/

/-- The mention of either form that begins a text. -/
def either? (text : List Char) : Option Mention :=
  tagged? text <|> bare? text

theorem digits?_eq_some {digits : List Char} (h : digits? text = some (digits, rest)) :
    text = digits ++ rest ∧ Text.Decimal digits ∧
      ∀ c ∈ rest.head?, Text.isDecimalDigit c = false := by
  unfold digits? at h
  split at h
  · cases h
  · next hne =>
    obtain ⟨rfl, rfl⟩ := Prod.mk.inj (Option.some.inj h)
    refine ⟨List.takeWhile_append_dropWhile.symm,
      ⟨hne, List.all_eq_true.mp List.all_takeWhile⟩, fun c hc => ?_⟩
    have hstop := List.head?_dropWhile_not Text.isDecimalDigit text
    rwa [Option.mem_def.mp hc] at hstop

theorem after?_eq_some {beginning : List Char} (h : after? beginning text = some rest) :
    text = beginning ++ rest := by
  unfold after? at h
  split at h
  · next hbegins =>
    obtain ⟨tail, rfl⟩ := List.isPrefixOf_iff_prefix.mp hbegins
    rw [← Option.some.inj h, List.drop_left]
  · cases h

theorem exists_of_bare? (h : bare? text = some m) :
    ∃ written rest, text = written ++ rest ∧ Spelled m written rest ∧ m.tag = none := by
  simp only [bare?, Option.bind_eq_bind, Option.bind_eq_some_iff, Prod.exists,
    Option.pure_def, Option.some.injEq] at h
  obtain ⟨string, behind, hstring, inside, hopen, number, close, hnumber, rest, hclose, rfl⟩ := h
  obtain ⟨rfl, hstringDigits, -⟩ := digits?_eq_some hstring
  obtain rfl := after?_eq_some hopen
  obtain ⟨rfl, hnumberDigits, -⟩ := digits?_eq_some hnumber
  obtain rfl := after?_eq_some hclose
  exact ⟨_, rest, by simp, .bare hstringDigits hnumberDigits, rfl⟩

theorem exists_of_taggedWith? {tag : LogTag} (h : taggedWith? tag text = some m) :
    ∃ written rest, text = written ++ rest ∧ Spelled m written rest := by
  simp only [taggedWith?, Option.bind_eq_bind, Option.bind_eq_some_iff, Prod.exists,
    Option.pure_def, Option.some.injEq] at h
  obtain ⟨behind, hword, string, colon, hstring, numbers, hcolon, number, rest, hnumber, rfl⟩ := h
  obtain rfl := after?_eq_some hword
  obtain ⟨hbehind, hstringDigits, -⟩ := digits?_eq_some hstring
  obtain rfl := after?_eq_some hcolon
  obtain ⟨rfl, hnumberDigits, hapart⟩ := digits?_eq_some hnumber
  have hblank : ∀ c ∈ behind.takeWhile Text.isSpace, Text.isSpace c :=
    List.all_eq_true.mp List.all_takeWhile
  refine ⟨_, rest, ?_, .tagged tag hblank hstringDigits hnumberDigits hapart⟩
  conv_lhs => rw [← List.takeWhile_append_dropWhile (p := Text.isSpace) (l := behind), hbehind]
  simp

theorem begins_of_either? (h : either? text = some m) : Begins text := by
  simp only [either?, tagged?, Option.orElse_eq_orElse, Option.orElse_eq_or,
    Option.or_eq_some_iff] at h
  rcases h with (herror | ⟨-, hwarning⟩) | ⟨-, hbare⟩
  · exact ⟨m, exists_of_taggedWith? herror⟩
  · exact ⟨m, exists_of_taggedWith? hwarning⟩
  · obtain ⟨written, rest, htext, hm, -⟩ := exists_of_bare? hbare
    exact ⟨m, written, rest, htext, hm⟩

theorem either?_eq_none (h : ¬Begins text) : tagged? text = none ∧ bare? text = none := by
  have hnone : either? text = none := by
    by_contra hsome
    obtain ⟨m, hm⟩ := Option.ne_none_iff_exists'.mp hsome
    exact h (begins_of_either? hm)
  simpa [either?] using hnone

namespace Spelled

theorem tagged?_eq (h : m.Spelled written rest) (htag : m.tag.isSome) :
    tagged? (written ++ rest) = some m := by
  cases h with
  | tagged tag hblank hstring hnumber hapart =>
    simpa using tagged?_append hstring hnumber tag hblank hapart
  | bare => cases htag

theorem bare?_eq (h : m.Spelled written rest) (htag : m.tag = none) :
    bare? (written ++ rest) = some m := by
  cases h with
  | tagged => cases htag
  | bare hstring hnumber => simpa using bare?_append hstring hnumber rest

theorem tagged?_eq_none (h : m.Spelled written rest) (htag : m.tag = none) :
    tagged? (written ++ rest) = none := by
  obtain ⟨c, hhead, ⟨-, hdigit⟩ | ⟨tag, htag', -⟩⟩ := h.head_cases
  · refine Mention.tagged?_eq_none fun tag hword => ?_
    obtain ⟨d, letters, hletters, hletter⟩ := tag.exists_word_eq
    simp only [List.head?_append, hhead, Option.some_or, hletters, List.head?_cons,
      Option.some.injEq] at hword
    rw [hword, hletter] at hdigit
    cases hdigit
  · rw [htag] at htag'
    cases htag'

theorem bare?_eq_none (h : m.Spelled written rest) (htag : m.tag.isSome) :
    bare? (written ++ rest) = none := by
  obtain ⟨c, hhead, ⟨htag', -⟩ | ⟨-, -, -, hletter⟩⟩ := h.head_cases
  · rw [htag'] at htag
    cases htag
  · refine Mention.bare?_eq_none fun d hd => ?_
    rw [List.head?_append, hhead, Option.some_or, Option.mem_some_iff] at hd
    rw [← hd, hletter]

theorem either?_eq (h : m.Spelled written rest) : either? (written ++ rest) = some m := by
  cases htag : m.tag with
  | some tag =>
    have hsome : m.tag.isSome := by rw [htag]; rfl
    rw [either?, h.tagged?_eq hsome]
    rfl
  | none =>
    rw [either?, h.tagged?_eq_none htag, h.bare?_eq htag]
    rfl

/-- At one place of a text there is one mention at most. -/
theorem unique (h : m.Spelled written rest) (h' : m'.Spelled written' rest')
    (htext : written ++ rest = written' ++ rest') :
    m = m' ∧ written = written' ∧ rest = rest' := by
  have hsame : some m = some m' := by rw [← h.either?_eq, htext, h'.either?_eq]
  obtain rfl := Option.some.inj hsame
  exact ⟨rfl, List.append_inj htext (h.length_eq.symm.trans h'.length_eq)⟩

/-- No mention begins at the start of a line that lies inside another mention. -/
theorem not_begins {front inner : List Char} {atStart : Bool}
    (h : m.Spelled (front ++ inner) rest) (hfront : front ≠ [])
    (hstart : Text.startsLine atStart front = true) : ¬Begins (inner ++ rest) := by
  rintro ⟨m', written', rest', htext, h'⟩
  obtain ⟨text, rfl⟩ := Text.exists_of_startsLine hstart hfront
  obtain ⟨blank, string, number, rfl, hblank, hstring⟩ :=
    h.exists_blank (List.append_assoc text ['\n'] inner)
  have hcolon : bare? (string ++ ':' :: (number ++ rest)) = none := by
    have hstop : ∀ c ∈ (':' :: (number ++ rest)).head?, Text.isDecimalDigit c = false := by
      intro c hc
      cases hc
      decide
    simp [bare?, digits?_append hstring.1 hstring.2 hstop, after?]
  obtain ⟨c, hhead, hc⟩ := h'.head_cases
  have hhead' : (blank ++ (string ++ ':' :: number) ++ rest).head? = some c := by
    rw [htext, List.head?_append, hhead, Option.some_or]
  cases blank with
  | nil =>
    obtain ⟨d, digits, rfl⟩ := List.exists_cons_of_ne_nil hstring.1
    obtain rfl := Option.some.inj hhead'
    have hdigit := hstring.2 d List.mem_cons_self
    rcases hc with ⟨htag, -⟩ | ⟨-, -, -, hletter⟩
    · have hfound := h'.bare?_eq htag
      rw [← htext] at hfound
      simp only [List.nil_append, List.append_assoc, List.cons_append] at hfound hcolon
      rw [hcolon] at hfound
      cases hfound
    · rw [hletter] at hdigit
      cases hdigit
  | cons d blank =>
    obtain rfl := Option.some.inj hhead'
    have hspace := hblank d List.mem_cons_self
    rcases hc with ⟨-, hdigit⟩ | ⟨tag, -, hword, -⟩
    · rw [Text.isSpace_eq_false_of_isDecimalDigit hdigit] at hspace
      cases hspace
    · revert hspace
      cases tag <;> cases hword <;> decide

end Spelled

theorem Begins.append_lineFeed (h : Begins text) (more : List Char) :
    Begins (text ++ '\n' :: more) := by
  obtain ⟨m, written, rest, rfl, hm⟩ := h
  exact ⟨m, written, rest ++ '\n' :: more, List.append_assoc .., Spelled.append_lineFeed_iff.mpr hm⟩

end Mention

/-! ## Cutting a log -/

/-- A part of a log: a mention and how it is written, or any other character. -/
inductive LogPart where
  | mention (m : Mention) (written : List Char)
  | other (c : Char)

namespace LogPart

/-- The part as it stands in the log. -/
def written : LogPart → List Char
  | mention _ written => written
  | other c => [c]

/-- The log consists of the parts. A mention counts at the start of a line, and there every
mention counts. -/
inductive Cuts : (atStart : Bool) → (log : List Char) → List LogPart → Prop where
  | nil {atStart : Bool} : Cuts atStart [] []
  | mention {m : Mention} {written rest : List Char} {parts : List LogPart}
    (spelled : m.Spelled written rest) (behind : Cuts false rest parts) :
    Cuts true (written ++ rest) (mention m written :: parts)
  | other {atStart : Bool} {c : Char} {rest : List Char} {parts : List LogPart}
    (unbegun : atStart = true → ¬Mention.Begins (c :: rest))
    (behind : Cuts (c == '\n') rest parts) : Cuts atStart (c :: rest) (other c :: parts)

variable {atStart : Bool} {log rest : List Char} {parts parts' : List LogPart}

/-- Every log can be cut. -/
theorem exists_cuts (atStart : Bool) (log : List Char) : ∃ parts, Cuts atStart log parts := by
  induction hlength : log.length using Nat.strong_induction_on generalizing atStart log with
  | h length ih =>
    subst hlength
    cases log with
    | nil => exact ⟨[], .nil⟩
    | cons c rest =>
      by_cases hbegins : atStart = true ∧ Mention.Begins (c :: rest)
      · obtain ⟨rfl, m, written, behind, htext, hm⟩ := hbegins
        have hshorter : behind.length < (c :: rest).length := by
          have hpos := List.length_pos_of_ne_nil hm.ne_nil
          rw [htext, List.length_append]
          omega
        obtain ⟨parts, hparts⟩ := ih _ hshorter false behind rfl
        rw [htext]
        exact ⟨_, .mention hm hparts⟩
      · obtain ⟨parts, hparts⟩ := ih _ (Nat.lt_succ_self _) (c == '\n') rest rfl
        exact ⟨_, .other (fun hstart => not_and.mp hbegins hstart) hparts⟩

namespace Cuts

theorem flatMap_written (h : Cuts atStart log parts) : parts.flatMap written = log := by
  induction h with
  | nil => rfl
  | mention _ _ ih => rw [List.flatMap_cons, ih]; rfl
  | other _ _ ih => rw [List.flatMap_cons, ih]; rfl

/-- There is one way to cut a log. -/
theorem unique (h : Cuts atStart log parts) (h' : Cuts atStart log parts') : parts = parts' := by
  induction h generalizing parts' with
  | nil =>
    generalize hlog : [] = log at h'
    cases h' with
    | nil => rfl
    | mention hm => exact absurd (List.append_eq_nil_iff.mp hlog.symm).1 hm.ne_nil
    | other => cases hlog
  | @mention m written rest parts hm _ ih =>
    generalize hlog : written ++ rest = log at h'
    cases h' with
    | nil => exact absurd (List.append_eq_nil_iff.mp hlog).1 hm.ne_nil
    | mention hm' hbehind =>
      obtain ⟨rfl, rfl, rfl⟩ := hm.unique hm' hlog
      rw [ih hbehind]
    | other hunbegun => exact absurd ⟨m, written, rest, hlog.symm, hm⟩ (hunbegun rfl)
  | @other atStart c rest parts hunbegun _ ih =>
    generalize hlog : c :: rest = log at h'
    cases h' with
    | nil => cases hlog
    | @mention m' written' rest' _ hm' =>
      exact absurd ⟨m', written', rest', hlog, hm'⟩ (hunbegun rfl)
    | other _ hbehind =>
      obtain ⟨rfl, rfl⟩ := List.cons.inj hlog
      rw [ih hbehind]

/-- Every mention at the start of a line is a part, so no two mentions overlap. -/
theorem exists_mention {m : Mention} {front written : List Char}
    (h : Cuts atStart (front ++ (written ++ rest)) parts)
    (hstart : Text.startsLine atStart front = true) (hm : m.Spelled written rest) :
    ∃ before behind, parts = before ++ .mention m written :: behind ∧
      before.flatMap LogPart.written = front := by
  generalize hlog : front ++ (written ++ rest) = log at h
  induction h generalizing front with
  | nil =>
    simp only [List.append_eq_nil_iff] at hlog
    exact absurd hlog.2.1 hm.ne_nil
  | @mention m' written' rest' parts hm' _ ih =>
    rcases List.append_eq_append_iff.mp hlog with ⟨inner, rfl, htext⟩ | ⟨behind, rfl, htext⟩
    · cases front with
      | nil =>
        obtain ⟨rfl, rfl, rfl⟩ := hm.unique hm' hlog
        exact ⟨[], parts, rfl, rfl⟩
      | cons c front =>
        exact absurd ⟨m, written, rest, htext.symm, hm⟩
          (hm'.not_begins (List.cons_ne_nil c front) hstart)
    · rw [Text.startsLine_append, hm'.startsLine_eq_false] at hstart
      obtain ⟨before, parts', rfl, hfront⟩ := ih hstart htext.symm
      exact ⟨.mention m' written' :: before, parts', rfl, by rw [List.flatMap_cons, hfront]; rfl⟩
  | @other atStart c rest' parts hunbegun _ ih =>
    cases front with
    | nil => exact absurd ⟨m, written, rest, hlog.symm, hm⟩ (hunbegun hstart)
    | cons d front =>
      obtain ⟨rfl, htext⟩ := List.cons.inj hlog
      obtain ⟨before, parts', rfl, hfront⟩ := ih hstart htext
      exact ⟨.other d :: before, parts', rfl, by rw [List.flatMap_cons, hfront]; rfl⟩

end Cuts

end LogPart

end ShaderWeave
