import ShaderWeave.Proofs.EntryFile
import ShaderWeave.Proofs.LogRewriting
import ShaderWeave.Proofs.Origin

/-!
# Compiler messages in terms of the sources

A compiler speaks of lines by their numbers in the flattened text. A pass that succeeds has
an origin for every line of that text, so every line that a compiler can name has one, and a
log that consists of messages is translated message by message.

## Main definitions

- `LogMessage`: a message about a line, given by its number.
- `LogMessage.written`, `LogMessage.line`: the message as it stands in a log, and the line it
  is about.
- `LogMessage.resolved`: the message after the rewriting of the log.
- `LogMessage.Becomes`: what the message has to become, given an output.

## Main results

- `LogMessage.becomes_resolved`: where every line has an origin, it becomes just that.
- `LogMessage.exists_rewrites`: what the two rewritings, one after the other, make of it.
- `CompilerLog.resolve_messages`: a log of messages is resolved message by message.
- `messages_translated`: the whole statement for the log of a compiler.
-/

namespace ShaderWeave

theorem Text.oneLine_of_isDigit {digits : List Char} (h : ∀ c ∈ digits, c.isDigit) :
    '\n' ∉ digits := by
  intro hmem
  have hfeed := h '\n' hmem
  revert hfeed
  decide

theorem Text.decimal_of_isDigit {digits : List Char}
    (h : digits ≠ [] ∧ ∀ c ∈ digits, c.isDigit) :
    digits ≠ [] ∧ ∀ c ∈ digits, Text.isDecimalDigit c :=
  ⟨h.1, fun c hc => Text.isDecimalDigit_of_isDigit (h.2 c hc)⟩

theorem Location.oneLine_reference {l : Location} (h : '\n' ∉ l.key.toList) :
    '\n' ∉ l.reference.toList := by
  have hnumeral : '\n' ∉ Nat.toDigits 10 l.line :=
    Text.oneLine_of_isDigit fun c hc => Nat.isDigit_of_mem_toDigits (by decide) (by decide) hc
  simp [reference, Text.numeral, h, hnumeral]

/-- A message of a compiler: the number of a source string and the number of a line, both in
digits, and what else stands on the line of the log. Behind a tag the line number ends where
the digits end. -/
structure LogMessage where
  tag : Option LogTag
  string : List Char
  number : List Char
  rest : List Char
  string_digits : string ≠ [] ∧ ∀ c ∈ string, c.isDigit
  number_digits : number ≠ [] ∧ ∀ c ∈ number, c.isDigit
  rest_oneLine : '\n' ∉ rest
  rest_apart : tag.isSome → ∀ c ∈ rest.head?, Text.isDecimalDigit c = false

namespace LogMessage

/-- The numbers of the source string and of the line, in the form that goes with the tag. -/
def place (m : LogMessage) : List Char :=
  match m.tag with
  | some _ => m.string ++ ':' :: m.number
  | none => m.string ++ '(' :: (m.number ++ [')'])

/-- The message as it stands in a log. -/
def written (m : LogMessage) : List Char :=
  LogTag.lead m.tag ++ m.place ++ m.rest

/-- The number of the line, counted from one. Leading zeros do not count. -/
def line (m : LogMessage) : Nat :=
  Nat.ofDigitChars 10 m.number 0

/-- The mention that the message begins with. -/
def mention (m : LogMessage) : Mention :=
  ⟨m.tag, m.number, (LogTag.lead m.tag ++ m.place).length⟩

/-- The message with its mention replaced, if the line that it names has an origin. -/
def resolved (origins : Array Location) (m : LogMessage) : List Char :=
  match m.mention.replacement? origins with
  | some replacement => replacement ++ m.rest
  | none => m.written

/-- The message is shown as `shown`: where the output has the line that the message is about,
the origin of this line is named in its place, and otherwise the message stays as it is. -/
def Becomes (o : Output) (m : LogMessage) (shown : List Char) : Prop :=
  if 1 ≤ m.line ∧ m.line ≤ (Text.shownLines o.text.toList).length then
    ∃ l, o.origin? (m.line - 1) = some l ∧
      shown = LogTag.lead m.tag ++ l.reference.toList ++ m.rest
  else
    shown = m.written

variable {origins : Array Location} {rest : List Char}

/-! ## The text of a message -/

theorem oneLine_place (m : LogMessage) : '\n' ∉ m.place := by
  have hstring := Text.oneLine_of_isDigit m.string_digits.2
  have hnumber := Text.oneLine_of_isDigit m.number_digits.2
  unfold place
  split <;> simp [hstring, hnumber]

theorem oneLine_written (m : LogMessage) : '\n' ∉ m.written := by
  simp [written, LogTag.oneLine_lead m.tag, m.oneLine_place, m.rest_oneLine]

theorem place_ne_nil (m : LogMessage) : m.place ≠ [] := by
  unfold place
  split <;> simp

theorem written_ne_nil (m : LogMessage) : m.written ≠ [] := by
  simp [written, m.place_ne_nil]

/-! ## The line that a message is about -/

theorem plainNumber?_number (m : LogMessage) : Text.plainNumber? m.number = some m.line := by
  rw [Text.plainNumber?, if_pos ⟨m.number_digits.1, List.all_eq_true.mpr m.number_digits.2⟩]
  rfl

theorem replacement?_mention (m : LogMessage) :
    m.mention.replacement? origins =
      if m.line = 0 then none
      else origins[m.line - 1]?.map fun l => LogTag.lead m.tag ++ l.reference.toList := by
  have horigin : m.mention.origin? origins =
      if m.line = 0 then none else origins[m.line - 1]? := by
    simp only [Mention.origin?, mention, m.plainNumber?_number, Option.bind_eq_bind,
      Option.bind_some]
  rw [Mention.replacement?_eq, horigin]
  by_cases hzero : m.line = 0
  · rw [if_pos hzero, if_pos hzero]
    rfl
  · rw [if_neg hzero, if_neg hzero]
    rfl

/-- If there is an origin for every line, the mention is replaced just if there is such a
line. -/
theorem becomes_resolved (m : LogMessage) {o : Output}
    (hsize : o.origins.size = (Text.shownLines o.text.toList).length) :
    m.Becomes o (m.resolved o.origins) := by
  unfold Becomes
  rw [← hsize]
  split
  · next hline =>
    have hlt : m.line - 1 < o.origins.size := by omega
    have horigin := Array.getElem?_eq_getElem hlt
    refine ⟨_, horigin, ?_⟩
    rw [resolved, replacement?_mention, if_neg (by omega), horigin]
    rfl
  · next hline =>
    have hnone : m.mention.replacement? o.origins = none := by
      rw [replacement?_mention]
      by_cases hzero : m.line = 0
      · exact if_pos hzero
      · rw [if_neg hzero, Array.getElem?_eq_none (by omega)]
        rfl
    rw [resolved, hnone]

theorem Becomes.oneLine {m : LogMessage} {o : Output} {shown : List Char} (h : m.Becomes o shown)
    (hkeys : ∀ l ∈ o.origins, '\n' ∉ l.key.toList) : '\n' ∉ shown := by
  unfold Becomes at h
  split at h
  · obtain ⟨l, horigin, rfl⟩ := h
    have hkey := Location.oneLine_reference (hkeys l (Array.mem_of_getElem? horigin))
    simp [LogTag.oneLine_lead m.tag, hkey, m.rest_oneLine]
  · rw [h]
    exact m.oneLine_written

/-! ## What is made of a message -/

/-- Where the message is found, its mention is replaced if there is an origin for it. -/
theorem rewrites_resolved {form : List Char → Option Mention} (m : LogMessage)
    (hform : ∀ rest, Text.EndsLine rest → form (m.written ++ rest) = some m.mention) :
    CompilerLog.Rewrites form origins m.written (m.resolved origins) := by
  cases hreplacement : m.mention.replacement? origins with
  | some replacement =>
    rw [resolved, hreplacement]
    refine CompilerLog.rewrites_of_mention (by simp [m.place_ne_nil])
      (by simp [LogTag.oneLine_lead m.tag, m.oneLine_place]) m.rest_oneLine ?_ rfl hreplacement
    intro rest hrest
    rw [← List.append_assoc]
    exact hform rest hrest
  | none =>
    rw [resolved, hreplacement]
    refine CompilerLog.rewrites_self m.written_ne_nil m.oneLine_written ?_
    intro rest hrest
    rw [hform rest hrest]
    exact hreplacement

theorem bare?_written (m : LogMessage) (htag : m.tag = none) (rest : List Char) :
    Mention.bare? (m.written ++ rest) = some m.mention := by
  have hwritten : m.written ++ rest = m.string ++ '(' :: (m.number ++ ')' :: (m.rest ++ rest)) := by
    simp [written, LogTag.lead, place, htag]
  have hmention : m.mention = ⟨none, m.number, m.string.length + 1 + m.number.length + 1⟩ := by
    simp only [mention, LogTag.lead, place, htag, List.nil_append, List.length_append,
      List.length_cons, List.length_nil, Mention.mk.injEq, true_and]
    omega
  rw [hwritten, hmention]
  exact Mention.bare?_append (Text.decimal_of_isDigit m.string_digits)
    (Text.decimal_of_isDigit m.number_digits) _

theorem tagged?_written (m : LogMessage) {tag : LogTag} (htag : m.tag = some tag)
    (hrest : Text.EndsLine rest) : Mention.tagged? (m.written ++ rest) = some m.mention := by
  have hwritten : m.written ++ rest =
      tag.word ++ ':' :: ([' '] ++ (m.string ++ ':' :: (m.number ++ (m.rest ++ rest)))) := by
    simp [written, LogTag.lead, place, htag]
  have hmention : m.mention = ⟨tag, m.number,
      tag.word.length + 1 + [' '].length + m.string.length + 1 + m.number.length⟩ := by
    simp only [mention, LogTag.lead, place, htag, List.length_append, List.length_cons,
      List.length_nil, Mention.mk.injEq, true_and]
    omega
  have hspace : ∀ c ∈ [' '], Text.isSpace c := by
    intro c hc
    rw [List.mem_singleton.mp hc]
    decide
  have hstop : ∀ c ∈ (m.rest ++ rest).head?, Text.isDecimalDigit c = false := by
    intro c hc
    have hrest' := m.rest_apart (by simp [htag])
    cases hnil : m.rest with
    | cons d tail =>
      rw [hnil] at hc hrest'
      exact hrest' c hc
    | nil =>
      rw [hnil] at hc
      rcases hrest with rfl | ⟨next, rfl⟩
      · cases hc
      · cases hc
        decide
  rw [hwritten, hmention]
  exact Mention.tagged?_append (Text.decimal_of_isDigit m.string_digits)
    (Text.decimal_of_isDigit m.number_digits) tag hspace hstop

theorem exists_resolved_eq (m : LogMessage) (origins : Array Location) :
    ∃ body, m.resolved origins = LogTag.lead m.tag ++ body := by
  unfold resolved
  rw [replacement?_mention]
  by_cases hzero : m.line = 0
  · rw [if_pos hzero]
    exact ⟨m.place ++ m.rest, List.append_assoc ..⟩
  · rw [if_neg hzero]
    cases origins[m.line - 1]? with
    | none => exact ⟨m.place ++ m.rest, List.append_assoc ..⟩
    | some l => exact ⟨l.reference.toList ++ m.rest, List.append_assoc ..⟩

/-- A tagged message begins with a letter whatever is made of it, so the second rewriting
leaves it alone. -/
theorem rewrites_bare_resolved (m : LogMessage) {tag : LogTag} (htag : m.tag = some tag)
    (hline : '\n' ∉ m.resolved origins) :
    CompilerLog.Rewrites Mention.bare? origins (m.resolved origins) (m.resolved origins) := by
  obtain ⟨c, letters, hword, hletter⟩ := tag.exists_word_eq
  obtain ⟨body, hbody⟩ := m.exists_resolved_eq origins
  have hcons : m.resolved origins = c :: (letters ++ [':', ' '] ++ body) := by
    simp [hbody, LogTag.lead, htag, hword]
  refine CompilerLog.rewrites_self (by simp [hcons]) hline fun rest _ => ?_
  rw [Mention.bare?_eq_none]
  · rfl
  · intro d hd
    rw [hcons] at hd
    cases hd
    exact hletter

/-- A message without a tag begins with a digit, so the first rewriting leaves it alone. -/
theorem rewrites_tagged_written (m : LogMessage) (htag : m.tag = none) :
    CompilerLog.Rewrites Mention.tagged? origins m.written m.written := by
  obtain ⟨c, digits, hstring⟩ := List.exists_cons_of_ne_nil m.string_digits.1
  have hdigit : Text.isDecimalDigit c = true :=
    Text.isDecimalDigit_of_isDigit (m.string_digits.2 c (by simp [hstring]))
  refine CompilerLog.rewrites_self m.written_ne_nil m.oneLine_written fun rest _ => ?_
  rw [Mention.tagged?_eq_none]
  · rfl
  · intro tag hhead
    obtain ⟨d, letters, hword, hletter⟩ := tag.exists_word_eq
    have hcd : c = d := by simpa [written, LogTag.lead, place, htag, hstring, hword] using hhead
    rw [hcd, hletter] at hdigit
    cases hdigit

/-- What the two rewritings, one after the other, make of a message. -/
theorem exists_rewrites (m : LogMessage) (hline : '\n' ∉ m.resolved origins) :
    ∃ between, CompilerLog.Rewrites Mention.tagged? origins m.written between ∧
      CompilerLog.Rewrites Mention.bare? origins between (m.resolved origins) := by
  cases htag : m.tag with
  | some tag =>
    exact ⟨_, m.rewrites_resolved fun _ hrest => m.tagged?_written htag hrest,
      m.rewrites_bare_resolved htag hline⟩
  | none =>
    exact ⟨_, m.rewrites_tagged_written htag,
      m.rewrites_resolved fun rest _ => m.bare?_written htag rest⟩

end LogMessage

/-- A log of messages is resolved message by message. -/
theorem CompilerLog.resolve_messages {origins : Array Location} {messages : List LogMessage}
    (h : ∀ m ∈ messages, '\n' ∉ m.resolved origins) :
    resolve origins (String.ofList (Text.unlines (messages.map LogMessage.written))) =
      String.ofList (Text.unlines (messages.map (LogMessage.resolved origins))) := by
  -- the lines as they stand between the two rewritings
  obtain ⟨between, hfirst, hsecond⟩ : ∃ between,
      List.Forall₂ (Rewrites Mention.tagged? origins) (messages.map LogMessage.written) between ∧
      List.Forall₂ (Rewrites Mention.bare? origins) between
        (messages.map (LogMessage.resolved origins)) := by
    induction messages with
    | nil => exact ⟨[], .nil, .nil⟩
    | cons m messages ih =>
      obtain ⟨line, hwritten, hresolved⟩ := m.exists_rewrites (h m List.mem_cons_self)
      obtain ⟨between, hfirst, hsecond⟩ := ih fun m' hm' => h m' (List.mem_cons_of_mem _ hm')
      exact ⟨line :: between, .cons hwritten hfirst, .cons hresolved hsecond⟩
  rw [resolve, String.toList_ofList, replaceAll_unlines hfirst, replaceAll_unlines hsecond]

/-- If a pass succeeds with keys of one line each, and a compiler returns a log of messages
about its text, then the log is resolved message by message, and keeps its number of lines.
A message about a line that the text has names the origin of that line instead, and any other
message stays as it is. -/
theorem messages_translated {σ α : Type} {w : Weaver σ} {stock : σ} {output : Output}
    (h : w.Makes stock output) (hkeys : ∀ l ∈ output.origins, '\n' ∉ l.key.toList)
    (compiler : String → Compilation α) (messages : List LogMessage)
    (hlog : (compiler output.text).log =
      some (String.ofList (Text.unlines (messages.map LogMessage.written)))) :
    ∃ shown, (output.compile compiler).log = some (String.ofList (Text.unlines shown)) ∧
      List.Forall₂ (LogMessage.Becomes output) messages shown ∧
      (∀ line ∈ shown, '\n' ∉ line) ∧
      (Text.lines (Text.unlines shown)).length =
        (Text.lines (Text.unlines (messages.map LogMessage.written))).length := by
  have hbecomes : ∀ m : LogMessage, m.Becomes output (m.resolved output.origins) :=
    fun m => m.becomes_resolved h.size_origins
  have honeLine : ∀ m : LogMessage, '\n' ∉ m.resolved output.origins :=
    fun m => (hbecomes m).oneLine hkeys
  refine ⟨messages.map (LogMessage.resolved output.origins), ?_, ?_, ?_, ?_⟩
  · rw [Output.compile, hlog, Option.map_some,
      CompilerLog.resolve_messages fun m _ => honeLine m]
  · rw [List.forall₂_map_right_iff, List.forall₂_same]
    exact fun m _ => hbecomes m
  · exact List.forall_mem_map.mpr fun m _ => honeLine m
  · rw [Text.length_lines_unlines (List.forall_mem_map.mpr fun m _ => honeLine m),
      Text.length_lines_unlines (List.forall_mem_map.mpr fun m _ => m.oneLine_written),
      List.length_map, List.length_map]

namespace Sample

/-- The line number has leading zeros. -/
def tinted : LogMessage where
  tag := some .warning
  string := "0".toList
  number := "007".toList
  rest := ": hue".toList
  string_digits := by simp
  number_digits := by simp
  rest_oneLine := by decide
  rest_apart _ c hc := by
    cases hc
    decide

/-- A digit may follow the parenthesis. -/
def closing : LogMessage where
  tag := none
  string := "12".toList
  number := "10".toList
  rest := "7".toList
  string_digits := by simp
  number_digits := by simp
  rest_oneLine := by decide
  rest_apart h := nomatch h

/-- In words of 64 bits the line number would come to ten. -/
def farOff : LogMessage where
  tag := some .error
  string := "0".toList
  number := "18446744073709551626".toList
  rest := " no such line".toList
  string_digits := by simp
  number_digits := by simp
  rest_oneLine := by decide
  rest_apart _ c hc := by
    cases hc
    decide

/-- A compiler that has nothing but a log. -/
def compiler (_ : String) : Compilation Unit :=
  ⟨(), some (String.ofList (Text.unlines ([tinted, closing, farOff].map LogMessage.written)))⟩

end Sample

theorem messages_translated_sample :
    (Sample.woven.compile Sample.compiler).log =
      some ("WARNING: tint[#pragma SETUP,1000](1): hue\nmain(7)7\n" ++
        "ERROR: 0:18446744073709551626 no such line") := by
  obtain ⟨pass, hok⟩ := Sample.weave_eq_ok
  have hkeys : ∀ l ∈ Sample.woven.origins, '\n' ∉ l.key.toList := by decide +kernel
  obtain ⟨shown, hlog, hshown, -, -⟩ :=
    messages_translated (Or.inl ⟨Sample.entry, pass, hok⟩) hkeys Sample.compiler
      [Sample.tinted, Sample.closing, Sample.farOff] rfl
  rw [hlog]
  rcases hshown with _ | ⟨htinted, _ | ⟨hclosing, _ | ⟨hfar, ⟨⟩⟩⟩⟩
  rw [LogMessage.Becomes, if_pos (by decide +kernel)] at htinted hclosing
  rw [LogMessage.Becomes, if_neg (by decide +kernel)] at hfar
  obtain ⟨l, hl, rfl⟩ := htinted
  obtain ⟨l', hl', rfl⟩ := hclosing
  obtain rfl : l = ⟨"tint[#pragma SETUP,1000]", 1⟩ := by
    have h : Sample.woven.origin? (Sample.tinted.line - 1) =
        some ⟨"tint[#pragma SETUP,1000]", 1⟩ := by decide +kernel
    exact Option.some.inj (hl.symm.trans h)
  obtain rfl : l' = ⟨"main", 7⟩ := by
    have h : Sample.woven.origin? (Sample.closing.line - 1) = some ⟨"main", 7⟩ := by decide +kernel
    exact Option.some.inj (hl'.symm.trans h)
  subst hfar
  decide +kernel

end ShaderWeave
