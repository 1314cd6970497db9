import ShaderWeave.Proofs.LogParts
import ShaderWeave.Proofs.LogTranslation

/-!
# A log in one sweep

A log is rewritten twice, and the second rewriting sees what the first has put in place of
the tagged mentions. With keys of one line each the two do not interfere: the result is the
log with each of its own mentions looked at once.

## Main definitions

- `Mention.Outside`: there is no origin for the line that is mentioned.
- `LogPart.shown`: what becomes of a part of a log.
- `LogPart.Shows`: the same, said case by case.

## Main results

- `CompilerLog.replaceMentions_keep`, `CompilerLog.replaceMentions_replace`: one rewriting,
  where nothing is replaced and where a mention is.
- `LogPart.Cuts.rewritten_twice`: the two rewritings make of a log what becomes of its parts.
- `log_resolved_in_one_sweep`: the whole statement.
-/

namespace ShaderWeave

/-! ## What becomes of a mention -/

namespace Mention

variable {m : Mention} {origins : Array Location} {l : Location}

/-- The number of the mention is that of no line that has an origin. -/
def Outside (origins : Array Location) (m : Mention) : Prop :=
  ∀ n, Text.plainNumber? m.digits = some n → n = 0 ∨ origins.size < n

theorem origin?_eq_some_iff :
    m.origin? origins = some l ↔
      ∃ n, Text.plainNumber? m.digits = some n ∧ 1 ≤ n ∧ origins[n - 1]? = some l := by
  simp only [origin?, Option.bind_eq_bind, Option.bind_eq_some_iff]
  refine exists_congr fun n => and_congr_right fun _ => ?_
  by_cases hzero : n = 0
  · simp [hzero]
  · rw [if_neg hzero]
    exact (and_iff_right (by omega)).symm

theorem origin?_eq_none_iff : m.origin? origins = none ↔ m.Outside origins := by
  constructor
  · intro hnone n hn
    by_contra hin
    obtain ⟨hzero, hsize⟩ := not_or.mp hin
    have hlt : n - 1 < origins.size := by omega
    have hsome := origin?_eq_some_iff.mpr
      ⟨n, hn, by omega, Array.getElem?_eq_getElem hlt⟩
    rw [hnone] at hsome
    cases hsome
  · intro houtside
    by_contra hsome
    obtain ⟨l, hl⟩ := Option.ne_none_iff_exists'.mp hsome
    obtain ⟨n, hn, hpos, horigin⟩ := origin?_eq_some_iff.mp hl
    obtain ⟨hlt, -⟩ := Array.getElem?_eq_some_iff.mp horigin
    rcases houtside n hn with hzero | hsize <;> omega

theorem oneLine_replacement (hkeys : ∀ l ∈ origins, '\n' ∉ l.key.toList)
    (horigin : m.origin? origins = some l) : '\n' ∉ LogTag.lead m.tag ++ l.reference.toList := by
  obtain ⟨n, -, -, hl⟩ := origin?_eq_some_iff.mp horigin
  have hreference := Location.oneLine_reference (hkeys l (Array.mem_of_getElem? hl))
  simp [LogTag.oneLine_lead m.tag, hreference]

end Mention

namespace LogPart

variable {origins : Array Location} {parts : List LogPart}

/-- What becomes of a part: a mention gives way to the origin of its line. -/
def shown (origins : Array Location) : LogPart → List Char
  | mention m written => (m.replacement? origins).getD written
  | other c => [c]

/-- The part is shown as the text. -/
inductive Shows (origins : Array Location) : LogPart → List Char → Prop where
  /-- The number of the mention is in the text the log is about, and counts from one. -/
  | located {m : Mention} {written : List Char} {n : Nat} {l : Location}
    (number : Text.plainNumber? m.digits = some n) (positive : 1 ≤ n)
    (origin : origins[n - 1]? = some l) :
    Shows origins (mention m written) (LogTag.lead m.tag ++ l.reference.toList)
  | unlocated {m : Mention} {written : List Char} (outside : m.Outside origins) :
    Shows origins (mention m written) written
  | other (c : Char) : Shows origins (other c) [c]

theorem shown_of_origin? {m : Mention} {written : List Char} {l : Location}
    (h : m.origin? origins = some l) :
    (mention m written).shown origins = LogTag.lead m.tag ++ l.reference.toList := by
  rw [shown, m.replacement?_eq, h]
  rfl

theorem shown_of_outside {m : Mention} (written : List Char) (h : m.Outside origins) :
    (mention m written).shown origins = written := by
  rw [shown, m.replacement?_eq, Mention.origin?_eq_none_iff.mpr h]
  rfl

theorem shows_shown (origins : Array Location) (part : LogPart) :
    Shows origins part (part.shown origins) := by
  cases part with
  | other c => exact .other c
  | mention m written =>
    cases horigin : m.origin? origins with
    | some l =>
      obtain ⟨n, hn, hpos, hl⟩ := Mention.origin?_eq_some_iff.mp horigin
      rw [shown_of_origin? horigin]
      exact .located hn hpos hl
    | none =>
      have houtside := Mention.origin?_eq_none_iff.mp horigin
      rw [shown_of_outside written houtside]
      exact .unlocated houtside

theorem flatMap_shown_of_outside
    (h : ∀ m written, mention m written ∈ parts → m.Outside origins) :
    parts.flatMap (shown origins) = parts.flatMap written := by
  have hsame : ∀ part ∈ parts, part.shown origins = part.written := by
    intro part hpart
    cases part with
    | other c => rfl
    | mention m written => exact shown_of_outside written (h m written hpart)
  rw [List.flatMap_def, List.flatMap_def, List.map_congr_left hsame]

end LogPart

/-! ## One rewriting -/

namespace CompilerLog

variable {form : List Char → Option Mention} {origins : Array Location}
  {atStart : Bool} {text rest : List Char}

theorem replaceMentions_cons {c : Char}
    (h : atStart = true → (form (c :: rest)).bind (·.replacement? origins) = none) :
    replaceMentions form origins atStart 0 (c :: rest) =
      c :: replaceMentions form origins (c == '\n') 0 rest := by
  have hfound : (do
      let m ← if atStart then form (c :: rest) else none
      let replacement ← m.replacement? origins
      return (replacement, m.length)) = none := by
    cases atStart with
    | false => rfl
    | true =>
      rw [if_pos rfl]
      exact Option.bind_eq_none_iff.mpr fun m hm => by
        simp [Option.bind_eq_none_iff.mp (h rfl) m hm]
  rw [replaceMentions, hfound]

/-- A text is copied if nothing is replaced at the starts of its lines. -/
theorem replaceMentions_keep
    (h : ∀ front back, text = front ++ back → back ≠ [] →
      Text.startsLine atStart front = true →
      (form (back ++ rest)).bind (·.replacement? origins) = none) :
    replaceMentions form origins atStart 0 (text ++ rest) =
      text ++ replaceMentions form origins (Text.startsLine atStart text) 0 rest := by
  induction text generalizing atStart with
  | nil => rfl
  | cons c text ih =>
    have hbehind := ih fun front back htext hne hstart =>
      h (c :: front) back (by rw [htext, List.cons_append]) hne hstart
    have hfirst : atStart = true →
        (form (c :: (text ++ rest))).bind (·.replacement? origins) = none :=
      h [] (c :: text) rfl (List.cons_ne_nil c text)
    rw [List.cons_append, replaceMentions_cons hfirst, hbehind]
    rfl

/-- The rest of a replaced mention is left out, with its line feeds. -/
theorem replaceMentions_leave (atStart : Bool) (text rest : List Char) :
    replaceMentions form origins atStart text.length (text ++ rest) =
      replaceMentions form origins (Text.startsLine atStart text) 0 rest := by
  induction text generalizing atStart with
  | nil => rfl
  | cons c text ih =>
    rw [List.cons_append, List.length_cons, replaceMentions, ih]
    rfl

theorem replaceMentions_replace {m : Mention} {replacement : List Char} (hne : text ≠ [])
    (hform : form (text ++ rest) = some m) (hlength : m.length = text.length)
    (hreplacement : m.replacement? origins = some replacement) :
    replaceMentions form origins true 0 (text ++ rest) =
      replacement ++ replaceMentions form origins (Text.startsLine true text) 0 rest := by
  obtain ⟨c, text, rfl⟩ := List.exists_cons_of_ne_nil hne
  have hleft : m.length - 1 = text.length := by simp [hlength]
  rw [List.cons_append] at hform ⊢
  rw [replaceMentions]
  simp only [if_true, hform, Option.bind_eq_bind, Option.bind_some, hreplacement,
    Option.pure_def, hleft, replaceMentions_leave]
  rfl

/-- The first character is copied where no line begins. -/
theorem head?_replaceMentions (rest : List Char) :
    (replaceMentions form origins false 0 rest).head? = rest.head? := by
  cases rest with
  | nil => rfl
  | cons c rest => rw [replaceMentions_cons (by simp)]; rfl

/-- Where no line begins, the line that stands there goes on as before. -/
theorem exists_replaceMentions_eq (form : List Char → Option Mention)
    (origins : Array Location) (rest : List Char) :
    ∃ line tail tail', rest = line ++ tail ∧ Text.EndsLine tail' ∧
      replaceMentions form origins false 0 rest = line ++ tail' := by
  obtain ⟨tail, hrest, hline, htail⟩ := Text.firstLine_eq_iff.mp (Eq.refl (Text.firstLine rest))
  refine ⟨Text.firstLine rest, tail, replaceMentions form origins false 0 tail, hrest, ?_, ?_⟩
  · rcases htail with rfl | ⟨next, rfl⟩
    · exact Or.inl rfl
    · exact Or.inr ⟨_, replaceMentions_cons (by simp)⟩
  · conv_lhs => rw [hrest, replaceMentions_copy hline]

end CompilerLog

/-! ## Both rewritings -/

namespace LogPart

open CompilerLog

variable {form : List Char → Option Mention} {origins : Array Location} {atStart : Bool}
  {log : List Char} {parts : List LogPart} {m : Mention} {written rest : List Char}

/-- A mention that is not replaced is copied as a whole. -/
theorem replaceMentions_spelled (hform : ∀ text, ¬Mention.Begins text → form text = none)
    (hm : m.Spelled written rest)
    (hnone : (form (written ++ rest)).bind (·.replacement? origins) = none) :
    replaceMentions form origins true 0 (written ++ rest) =
      written ++ replaceMentions form origins false 0 rest := by
  rw [replaceMentions_keep, hm.startsLine_eq_false]
  intro front back hsplit _ hstart
  subst hsplit
  cases front with
  | nil => exact hnone
  | cons c front =>
    rw [hform _ (hm.not_begins (List.cons_ne_nil c front) hstart)]
    rfl

/-- A mention stands whatever is made of the text behind it. -/
theorem spelled_replaceMentions (form : List Char → Option Mention) (origins : Array Location)
    (hm : m.Spelled written rest) :
    m.Spelled written (replaceMentions form origins false 0 rest) := by
  refine hm.congr fun c hc _ => ?_
  rwa [head?_replaceMentions] at hc

/-- What the first rewriting puts in place of a mention begins with a letter, so the second one
leaves it alone. -/
theorem replaceMentions_replacement {l : Location} (hkeys : ∀ l ∈ origins, '\n' ∉ l.key.toList)
    (htag : m.tag.isSome) (horigin : m.origin? origins = some l) (behind : List Char) :
    replaceMentions Mention.bare? origins true 0
        (LogTag.lead m.tag ++ l.reference.toList ++ behind) =
      LogTag.lead m.tag ++ l.reference.toList ++
        replaceMentions Mention.bare? origins false 0 behind := by
  have honeLine := Mention.oneLine_replacement hkeys horigin
  obtain ⟨tag, htag⟩ := Option.isSome_iff_exists.mp htag
  obtain ⟨c, letters, hword, hletter⟩ := tag.exists_word_eq
  have hcons : LogTag.lead m.tag ++ l.reference.toList =
      c :: (letters ++ [':', ' '] ++ l.reference.toList) := by
    simp [LogTag.lead, htag, hword]
  have hbare : ∀ text, Mention.bare? (c :: text) = none := by
    intro text
    refine Mention.bare?_eq_none fun d hd => ?_
    cases hd
    exact hletter
  rw [hcons] at honeLine ⊢
  obtain ⟨hc, honeLine⟩ := Text.oneLine_cons honeLine
  rw [List.cons_append, replaceMentions_cons fun _ => by rw [hbare]; rfl, beq_false_of_ne hc,
    replaceMentions_copy honeLine, List.cons_append]

/-- The first rewriting deals with a mention with a tag. -/
theorem rewritten_tagged (hkeys : ∀ l ∈ origins, '\n' ∉ l.key.toList)
    (hm : m.Spelled written rest) (htag : m.tag.isSome) :
    replaceMentions Mention.bare? origins true 0
        (replaceMentions Mention.tagged? origins true 0 (written ++ rest)) =
      (mention m written).shown origins ++ replaceMentions Mention.bare? origins false 0
        (replaceMentions Mention.tagged? origins false 0 rest) := by
  have hfound := hm.tagged?_eq htag
  cases horigin : m.origin? origins with
  | some l =>
    have hreplacement : m.replacement? origins =
        some (LogTag.lead m.tag ++ l.reference.toList) := by
      rw [m.replacement?_eq, horigin]
      rfl
    rw [shown_of_origin? horigin,
      replaceMentions_replace hm.ne_nil hfound hm.length_eq hreplacement, hm.startsLine_eq_false,
      replaceMentions_replacement hkeys htag horigin]
  | none =>
    have hnone : (Mention.tagged? (written ++ rest)).bind (·.replacement? origins) = none := by
      rw [hfound, Option.bind_some, m.replacement?_eq, horigin]
      rfl
    have hm' := spelled_replaceMentions Mention.tagged? origins hm
    rw [shown_of_outside written (Mention.origin?_eq_none_iff.mp horigin),
      replaceMentions_spelled (fun _ h => (Mention.either?_eq_none h).1) hm hnone,
      replaceMentions_spelled (fun _ h => (Mention.either?_eq_none h).2) hm'
        (by rw [hm'.bare?_eq_none htag]; rfl)]

/-- The first rewriting passes over a mention without a tag, and the second deals with it. -/
theorem rewritten_bare (hm : m.Spelled written rest) (htag : m.tag = none) :
    replaceMentions Mention.bare? origins true 0
        (replaceMentions Mention.tagged? origins true 0 (written ++ rest)) =
      (mention m written).shown origins ++ replaceMentions Mention.bare? origins false 0
        (replaceMentions Mention.tagged? origins false 0 rest) := by
  have hm' := spelled_replaceMentions Mention.tagged? origins hm
  rw [replaceMentions_spelled (fun _ h => (Mention.either?_eq_none h).1) hm
    (by rw [hm.tagged?_eq_none htag]; rfl)]
  cases hreplacement : m.replacement? origins with
  | some replacement =>
    rw [replaceMentions_replace hm'.ne_nil (hm'.bare?_eq htag) hm'.length_eq hreplacement,
      hm'.startsLine_eq_false, shown, hreplacement, Option.getD_some]
  | none =>
    rw [replaceMentions_spelled (fun _ h => (Mention.either?_eq_none h).2) hm'
      (by rw [hm'.bare?_eq htag]; exact hreplacement), shown, hreplacement, Option.getD_none]

/-- The first rewriting makes no mention out of what was none. -/
theorem rewritten_other {c : Char} (hunbegun : atStart = true → ¬Mention.Begins (c :: rest)) :
    replaceMentions Mention.bare? origins atStart 0
        (replaceMentions Mention.tagged? origins atStart 0 (c :: rest)) =
      c :: replaceMentions Mention.bare? origins (c == '\n') 0
        (replaceMentions Mention.tagged? origins (c == '\n') 0 rest) := by
  rw [replaceMentions_cons fun hstart => by
    rw [(Mention.either?_eq_none (hunbegun hstart)).1]; rfl]
  refine replaceMentions_cons fun hstart => ?_
  suffices hnone : Mention.bare? (c :: replaceMentions Mention.tagged? origins (c == '\n') 0 rest) =
      none by rw [hnone]; rfl
  by_contra hsome
  obtain ⟨m, hm⟩ := Option.ne_none_iff_exists'.mp hsome
  obtain ⟨written, rest', htext, hspelled, htag⟩ := Mention.exists_of_bare? hm
  have honeLine := hspelled.oneLine htag
  have hc : c ≠ '\n' := by
    rintro rfl
    obtain ⟨d, written, rfl⟩ := List.exists_cons_of_ne_nil hspelled.ne_nil
    exact honeLine ((List.cons.inj htext).1 ▸ List.mem_cons_self)
  -- the mention is found in the line that stands here, and the line is still as it was
  obtain ⟨line, tail, tail', rfl, htail', hcopy⟩ :=
    exists_replaceMentions_eq Mention.tagged? origins rest
  rw [beq_false_of_ne hc, hcopy, ← List.cons_append] at htext
  obtain ⟨body, hline, -⟩ := htail'.cut honeLine htext
  refine hunbegun hstart ⟨m, written, body ++ tail, ?_, hspelled.anywhere htag _⟩
  rw [← List.cons_append, hline, List.append_assoc]

/-- Rewriting a log twice is to put in place of each part what becomes of it. -/
theorem Cuts.rewritten_twice (h : Cuts atStart log parts)
    (hkeys : ∀ l ∈ origins, '\n' ∉ l.key.toList) :
    replaceMentions Mention.bare? origins atStart 0
        (replaceMentions Mention.tagged? origins atStart 0 log) =
      parts.flatMap (shown origins) := by
  induction h with
  | nil => rfl
  | @mention m written rest parts hm _ ih =>
    rw [List.flatMap_cons, ← ih]
    cases htag : m.tag with
    | none => exact rewritten_bare hm htag
    | some tag => exact rewritten_tagged hkeys hm (by rw [htag]; rfl)
  | other hunbegun _ ih => rw [rewritten_other hunbegun, ih]; rfl

theorem Cuts.toList_resolve {log : String} (h : Cuts true log.toList parts)
    (hkeys : ∀ l ∈ origins, '\n' ∉ l.key.toList) :
    (resolve origins log).toList = parts.flatMap (shown origins) := by
  rw [resolve, String.toList_ofList, ← h.rewritten_twice hkeys]
  rfl

end LogPart

/-- A log is cut into parts in one way: every mention at the start of a line is a part, and so
is every other character. If the keys have one line each, the log is resolved part by part:
a mention of a line that has an origin is shown as this origin, behind its tag, and all else
as it stands. So a log that mentions no such line stays as it is. -/
theorem log_resolved_in_one_sweep {origins : Array Location}
    (hkeys : ∀ l ∈ origins, '\n' ∉ l.key.toList) (log : String) :
    ∃ parts shown,
      LogPart.Cuts true log.toList parts ∧
      (∀ parts', LogPart.Cuts true log.toList parts' → parts' = parts) ∧
      (∀ front m written rest, log.toList = front ++ (written ++ rest) →
        Text.startsLine true front = true → Mention.Spelled m written rest →
        ∃ before behind, parts = before ++ .mention m written :: behind ∧
          before.flatMap LogPart.written = front) ∧
      List.Forall₂ (LogPart.Shows origins) parts shown ∧
      CompilerLog.resolve origins log = String.ofList shown.flatten ∧
      ((∀ m written, .mention m written ∈ parts → m.Outside origins) →
        CompilerLog.resolve origins log = log) := by
  obtain ⟨parts, hparts⟩ := LogPart.exists_cuts true log.toList
  have hresolve := hparts.toList_resolve hkeys
  refine ⟨parts, parts.map (LogPart.shown origins), hparts, fun _ h => h.unique hparts, ?_, ?_,
    ?_, ?_⟩
  · intro front m written rest hlog hstart hm
    rw [hlog] at hparts
    exact hparts.exists_mention hstart hm
  · rw [List.forall₂_map_right_iff, List.forall₂_same]
    exact fun part _ => LogPart.shows_shown origins part
  · rw [← List.flatMap_def, ← hresolve, String.ofList_toList]
  · intro houtside
    rw [← String.toList_inj, hresolve, LogPart.flatMap_shown_of_outside houtside,
      hparts.flatMap_written]

namespace Sample

/-- A key that looks like a mention, and one that does not. -/
def references : Array Location := #[⟨"0(2)", 1⟩, ⟨"lighting", 17⟩]

/-- A mention on one line and a mention over two. -/
def messages : String := "0(1) x\nWARNING:\n0:2 y"

end Sample

theorem log_resolved_in_one_sweep_sample :
    ∃ parts shown, LogPart.Cuts true Sample.messages.toList parts ∧
      List.Forall₂ (LogPart.Shows Sample.references) parts shown ∧
      String.ofList shown.flatten = "0(2)(1) x\nWARNING: lighting(17) y" := by
  have hkeys : ∀ l ∈ Sample.references, '\n' ∉ l.key.toList := by decide +kernel
  obtain ⟨parts, shown, hcuts, -, -, hshown, hresolve, -⟩ :=
    log_resolved_in_one_sweep hkeys Sample.messages
  have hresolved : CompilerLog.resolve Sample.references Sample.messages =
      "0(2)(1) x\nWARNING: lighting(17) y" := by decide +kernel
  exact ⟨parts, shown, hcuts, hshown, hresolve.symm.trans hresolved⟩

end ShaderWeave
