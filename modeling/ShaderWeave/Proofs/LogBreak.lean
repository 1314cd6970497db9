import ShaderWeave.Proofs.LogSweep

/-!
# Where a log is not resolved line by line

The white space behind the colon of a tag may hold line feeds, so a mention may begin on one
line and end on another. If it is replaced, the lines in between are lost. A line feed inside
such a mention is the only place where a log cannot be cut before it is resolved.

## Main definitions

- `CompilerLog.Straddles`: a mention that is replaced goes over a line feed.

## Main results

- `LogPart.Cuts.cut_lineFeed`, `LogPart.Cuts.cut_mention`: the parts on both sides of a line
  feed.
- `CompilerLog.resolve_by_lines_iff`: when a log can be cut at a line feed.
- `CompilerLog.count_resolve_le`: a log gains no lines.
-/

namespace ShaderWeave

/-- The first half of a mention does not begin with a mention, at none of its lines. -/
theorem Mention.Spelled.not_begins_head {m : Mention} {head tail rest front inner : List Char}
    (h : m.Spelled (head ++ '\n' :: tail) rest) (hhead : head = front ++ inner)
    (hstart : Text.startsLine true front = true) : ¬Mention.Begins inner := by
  intro hbegins
  subst hhead
  by_cases hfront : front = []
  · subst hfront
    obtain ⟨m', written', rest', rfl, h'⟩ := hbegins
    have hmore : m'.Spelled written' (rest' ++ '\n' :: (tail ++ rest)) :=
      Mention.Spelled.append_lineFeed_iff.mpr h'
    obtain ⟨-, hwritten, -⟩ := h.unique hmore (by simp)
    have hlength := congrArg List.length hwritten
    simp only [List.nil_append, List.length_append, List.length_cons] at hlength
    omega
  · have hinner : m.Spelled (front ++ (inner ++ '\n' :: tail)) rest := by simpa using h
    refine hinner.not_begins hfront hstart ?_
    simpa using hbegins.append_lineFeed (tail ++ rest)

namespace LogPart

variable {atStart : Bool} {front text rest more head tail back : List Char}
  {parts before behind : List LogPart} {part : LogPart} {m : Mention} {origins : Array Location}

/-- A line feed of the log lies in one of its parts. -/
theorem exists_part {a b : List Char} (h : parts.flatMap written = a ++ '\n' :: b) :
    ∃ before part behind head tail, parts = before ++ part :: behind ∧
      part.written = head ++ '\n' :: tail ∧ a = before.flatMap written ++ head ∧
      b = tail ++ behind.flatMap written := by
  induction parts generalizing a with
  | nil => simp at h
  | cons part parts ih =>
    rw [List.flatMap_cons] at h
    rcases List.append_eq_append_iff.mp h with ⟨rest, rfl, hrest⟩ | ⟨rest, hpart, hrest⟩
    · obtain ⟨before, part', behind, head, tail, rfl, hpart, rfl, rfl⟩ := ih hrest
      exact ⟨part :: before, part', behind, head, tail, rfl, hpart, by simp, rfl⟩
    · cases rest with
      | nil =>
        obtain ⟨before, part', behind, head, tail, rfl, hpart', hhead, rfl⟩ :=
          ih (show parts.flatMap written = [] ++ '\n' :: b from hrest.symm)
        exact ⟨part :: before, part', behind, head, tail, rfl, hpart',
          by rw [List.flatMap_cons, List.append_assoc, ← hhead, List.append_nil, hpart,
            List.append_nil], rfl⟩
      | cons c rest =>
        obtain ⟨rfl, rfl⟩ := List.cons.inj hrest
        exact ⟨[], part, parts, a, rest, rfl, hpart, rfl, rfl⟩

namespace Cuts

theorem behind_part {log : List Char} (h : Cuts atStart log (part :: parts)) :
    ∃ rest, log = part.written ++ rest ∧
      Cuts (Text.startsLine atStart part.written) rest parts := by
  cases h with
  | mention hm hbehind =>
    refine ⟨_, rfl, ?_⟩
    rwa [LogPart.written, hm.startsLine_eq_false]
  | other _ hbehind => exact ⟨_, rfl, hbehind⟩

/-- What stands behind some parts is cut into the other parts. -/
theorem of_append (h : Cuts atStart (before.flatMap written ++ rest) (before ++ behind)) :
    Cuts (Text.startsLine atStart (before.flatMap written)) rest behind := by
  induction before generalizing atStart with
  | nil => exact h
  | cons part before ih =>
    rw [List.flatMap_cons, List.append_assoc] at h
    obtain ⟨rest', htext, hbehind⟩ := behind_part h
    obtain rfl := List.append_cancel_left htext
    rw [List.flatMap_cons, Text.startsLine_append]
    exact ih hbehind

/-- The parts in front of a line feed do not depend on what stands behind it. -/
theorem replace_behind
    (h : Cuts atStart (before.flatMap written ++ (rest ++ '\n' :: more)) (before ++ behind))
    (hrest : Cuts (Text.startsLine atStart (before.flatMap written)) rest parts) :
    Cuts atStart (before.flatMap written ++ rest) (before ++ parts) := by
  induction before generalizing atStart with
  | nil => exact hrest
  | cons part before ih =>
    rw [List.flatMap_cons, List.append_assoc] at h ⊢
    rw [List.flatMap_cons, Text.startsLine_append] at hrest
    generalize htext : part.written ++ (before.flatMap written ++ (rest ++ '\n' :: more)) = log at h
    cases h with
    | mention hm hbehind =>
      obtain rfl := List.append_cancel_left htext
      rw [LogPart.written, hm.startsLine_eq_false] at hrest
      rw [← List.append_assoc] at hm
      exact .mention (Mention.Spelled.append_lineFeed_iff.mp hm) (ih hbehind hrest)
    | @other _ c _ _ hunbegun hbehind =>
      obtain rfl := List.append_cancel_left htext
      refine .other (fun hstart hbegins => hunbegun hstart ?_) (ih hbehind hrest)
      simpa using hbegins.append_lineFeed more

/-- A text is cut into its characters if no mention begins at the starts of its lines. -/
theorem others
    (h : ∀ front back, text = front ++ back → back ≠ [] →
      Text.startsLine atStart front = true → ¬Mention.Begins (back ++ rest))
    (hrest : Cuts (Text.startsLine atStart text) rest parts) :
    Cuts atStart (text ++ rest) (text.map LogPart.other ++ parts) := by
  induction text generalizing atStart with
  | nil => exact hrest
  | cons c text ih =>
    refine .other (h [] (c :: text) rfl (List.cons_ne_nil c text)) (ih ?_ hrest)
    intro front back htext hne hstart
    exact h (c :: front) back (by rw [htext, List.cons_append]) hne hstart

/-- A line feed that is no part of a mention separates two logs. -/
theorem cut_lineFeed
    (h : Cuts true (before.flatMap written ++ '\n' :: text)
      (before ++ LogPart.other '\n' :: behind)) :
    Cuts true (before.flatMap written) before ∧ Cuts true text behind := by
  constructor
  · have hfront : Cuts true (before.flatMap written ++ []) (before ++ []) :=
      replace_behind h .nil
    rwa [List.append_nil, List.append_nil] at hfront
  · obtain ⟨rest, htext, hbehind⟩ := (of_append h).behind_part
    obtain rfl := (List.cons.inj htext).2
    exact hbehind

/-- A mention among the parts stands at the start of a line. -/
theorem spelled {log : List Char} (h : Cuts true log (before ++ LogPart.mention m text :: behind)) :
    Text.startsLine true (before.flatMap written) = true ∧
      m.Spelled text (behind.flatMap written) ∧ Cuts false (behind.flatMap written) behind := by
  have hlog : log = before.flatMap written ++ (text ++ behind.flatMap written) := by
    rw [← h.flatMap_written, List.flatMap_append]
    rfl
  rw [hlog] at h
  have hpart := of_append h
  generalize hstart : Text.startsLine true (before.flatMap written) = atStart at hpart
  generalize htext : text ++ behind.flatMap written = rest at hpart
  cases hpart with
  | mention hm hbehind =>
    obtain rfl := List.append_cancel_left htext
    exact ⟨rfl, hm, hbehind⟩

/-- Without the line feed inside it, neither half of a mention is a mention. The parts on both
sides of it stay. -/
theorem cut_mention
    (h : Cuts true
      (before.flatMap written ++ (head ++ '\n' :: (tail ++ behind.flatMap written)))
      (before ++ LogPart.mention m (head ++ '\n' :: tail) :: behind)) :
    Cuts true (before.flatMap written ++ head) (before ++ head.map LogPart.other) ∧
      Cuts true (tail ++ behind.flatMap written) (tail.map LogPart.other ++ behind) := by
  obtain ⟨hstart, hm, hbehind⟩ := h.spelled
  constructor
  · refine replace_behind h ?_
    rw [hstart]
    have hothers : Cuts true (head ++ []) (head.map LogPart.other ++ []) := by
      refine others (fun front inner hhead _ hfront => ?_) .nil
      rw [List.append_nil]
      exact hm.not_begins_head hhead hfront
    simpa using hothers
  · refine others (fun front inner htail _ hfront => ?_) ?_
    · subst htail
      have hm' : m.Spelled ((head ++ '\n' :: front) ++ inner) (behind.flatMap written) := by
        simpa using hm
      exact hm'.not_begins (by simp) ((Text.startsLine_lineFeed true head front).trans hfront)
    · rwa [← Text.startsLine_lineFeed true head tail, hm.startsLine_eq_false]

end Cuts

/-! ## What becomes of the two sides -/

theorem flatMap_shown_map_other (text : List Char) :
    (text.map other).flatMap (shown origins) = text := by
  induction text with
  | nil => rfl
  | cons c text ih => rw [List.map_cons, List.flatMap_cons, ih]; rfl

/-- A mention over several lines is shown on one, unless it stays as it is. -/
theorem shown_eq_iff_outside (hkeys : ∀ l ∈ origins, '\n' ∉ l.key.toList)
    (hfeed : '\n' ∈ text) : (mention m text).shown origins = text ↔ m.Outside origins := by
  refine ⟨fun hshown => ?_, shown_of_outside text⟩
  rw [← Mention.origin?_eq_none_iff]
  by_contra hsome
  obtain ⟨l, hl⟩ := Option.ne_none_iff_exists'.mp hsome
  rw [shown_of_origin? hl] at hshown
  exact Mention.oneLine_replacement hkeys hl (hshown ▸ hfeed)

end LogPart

namespace CompilerLog

open LogPart

variable {origins : Array Location} {before behind : List LogPart} {m : Mention}
  {head tail : List Char} {a b : String}

/-- A mention of a line that has an origin begins on a line of `a` and ends in `b`, with a line
feed in between. -/
def Straddles (origins : Array Location) (a b : List Char) : Prop :=
  ∃ front m head tail back, a = front ++ head ∧ b = tail ++ back ∧
    Text.startsLine true front = true ∧ Mention.Spelled m (head ++ '\n' :: tail) back ∧
    ¬m.Outside origins

theorem resolve_cut_lineFeed (hkeys : ∀ l ∈ origins, '\n' ∉ l.key.toList)
    (ha : a.toList = before.flatMap written)
    (h : Cuts true (a ++ "\n" ++ b).toList (before ++ other '\n' :: behind)) :
    resolve origins (a ++ "\n" ++ b) = resolve origins a ++ "\n" ++ resolve origins b := by
  have hwhole := h.toList_resolve hkeys
  rw [String.toList_append, String.toList_append, ha, List.append_assoc] at h
  obtain ⟨hbefore, hbehind⟩ := h.cut_lineFeed
  rw [← ha] at hbefore
  rw [← String.toList_inj, hwhole, String.toList_append, String.toList_append,
    hbefore.toList_resolve hkeys, hbehind.toList_resolve hkeys, List.flatMap_append,
    List.append_assoc]
  rfl

theorem resolve_cut_mention_iff (hkeys : ∀ l ∈ origins, '\n' ∉ l.key.toList)
    (ha : a.toList = before.flatMap written ++ head)
    (hb : b.toList = tail ++ behind.flatMap written)
    (h : Cuts true (a ++ "\n" ++ b).toList
      (before ++ mention m (head ++ '\n' :: tail) :: behind)) :
    resolve origins (a ++ "\n" ++ b) = resolve origins a ++ "\n" ++ resolve origins b ↔
      m.Outside origins := by
  have hwhole := h.toList_resolve hkeys
  have hlog : (a ++ "\n" ++ b).toList =
      before.flatMap written ++ (head ++ '\n' :: (tail ++ behind.flatMap written)) := by
    rw [String.toList_append, String.toList_append, ha, hb]
    simp
  rw [hlog] at h
  obtain ⟨hbefore, hbehind⟩ := h.cut_mention
  rw [← ha] at hbefore
  rw [← hb] at hbehind
  have hparts : (resolve origins a ++ "\n" ++ resolve origins b).toList =
      before.flatMap (shown origins) ++ ((head ++ '\n' :: tail) ++
        behind.flatMap (shown origins)) := by
    rw [String.toList_append, String.toList_append, hbefore.toList_resolve hkeys,
      hbehind.toList_resolve hkeys, List.flatMap_append, List.flatMap_append,
      flatMap_shown_map_other, flatMap_shown_map_other]
    simp
  rw [← String.toList_inj, hwhole, hparts, List.flatMap_append, List.flatMap_cons,
    List.append_cancel_left_eq, List.append_cancel_right_eq]
  exact shown_eq_iff_outside hkeys (by simp)

/-- With keys of one line each, a log can be cut at a line feed before it is resolved just if
no mention goes over this line feed and is replaced. -/
theorem resolve_by_lines_iff (hkeys : ∀ l ∈ origins, '\n' ∉ l.key.toList) (a b : String) :
    resolve origins (a ++ "\n" ++ b) = resolve origins a ++ "\n" ++ resolve origins b ↔
      ¬Straddles origins a.toList b.toList := by
  obtain ⟨parts, hparts⟩ := exists_cuts true (a ++ "\n" ++ b).toList
  have hlog : (a ++ "\n" ++ b).toList = a.toList ++ '\n' :: b.toList := by simp
  constructor
  · rintro hsame ⟨front, m, head, tail, back, ha, hb, hstart, hm, hinside⟩
    have hplace : (a ++ "\n" ++ b).toList = front ++ ((head ++ '\n' :: tail) ++ back) := by
      rw [hlog, ha, hb]
      simp
    obtain ⟨before, behind, rfl, rfl⟩ := (hplace ▸ hparts).exists_mention hstart hm
    have hback : behind.flatMap written = back := by
      have hwritten := hparts.flatMap_written.trans hplace
      rw [List.flatMap_append, List.append_cancel_left_eq] at hwritten
      exact List.append_cancel_left hwritten
    rw [← hback] at hb
    exact hinside ((resolve_cut_mention_iff hkeys ha hb hparts).mp hsame)
  · intro hnone
    obtain ⟨before, part, behind, head, tail, rfl, hpart, ha, hb⟩ :=
      exists_part (hparts.flatMap_written.trans hlog)
    cases part with
    | other c =>
      obtain ⟨rfl, hfeed⟩ : head = [] ∧ [c] = '\n' :: tail := by
        cases head with
        | nil => exact ⟨rfl, hpart⟩
        | cons d head => simp [LogPart.written] at hpart
      obtain ⟨rfl, rfl⟩ := List.cons.inj hfeed
      rw [List.append_nil] at ha
      exact resolve_cut_lineFeed hkeys ha hparts
    | mention m written =>
      obtain rfl : written = head ++ '\n' :: tail := hpart
      refine (resolve_cut_mention_iff hkeys ha hb hparts).mpr ?_
      by_contra hinside
      obtain ⟨hstart, hm, -⟩ := hparts.spelled
      exact hnone ⟨_, m, head, tail, _, ha, hb, hstart, hm, hinside⟩

/-- It is not always so: a tag at the end of a line and two numbers at the start of the next
one make a mention. -/
theorem resolve_not_always_by_lines :
    ¬∀ (origins : Array Location) (a b : String), (∀ l ∈ origins, '\n' ∉ l.key.toList) →
      resolve origins (a ++ "\n" ++ b) = resolve origins a ++ "\n" ++ resolve origins b := by
  intro h
  have hcut := h #[⟨"main", 1⟩] "ERROR:" "0:1" (by decide +kernel)
  revert hcut
  decide +kernel

theorem resolve_by_lines_iff_sample :
    Straddles Sample.references "x\nWARNING:\t".toList " 0:2 y".toList ∧
      ¬Straddles Sample.references "x\nWARNING: 0:2".toList "0(1) y".toList := by
  have hkeys : ∀ l ∈ Sample.references, '\n' ∉ l.key.toList := by decide +kernel
  constructor
  · by_contra hnone
    have hcut := (resolve_by_lines_iff hkeys "x\nWARNING:\t" " 0:2 y").mpr hnone
    revert hcut
    decide +kernel
  · exact (resolve_by_lines_iff hkeys "x\nWARNING: 0:2" "0(1) y").mp (by decide +kernel)

/-- Resolving a log adds no lines to it. -/
theorem count_resolve_le (hkeys : ∀ l ∈ origins, '\n' ∉ l.key.toList) (log : String) :
    (resolve origins log).toList.count '\n' ≤ log.toList.count '\n' := by
  obtain ⟨parts, hparts⟩ := exists_cuts true log.toList
  rw [hparts.toList_resolve hkeys, ← hparts.flatMap_written]
  clear hparts
  induction parts with
  | nil => exact le_rfl
  | cons part parts ih =>
    rw [List.flatMap_cons, List.flatMap_cons, List.count_append, List.count_append]
    refine Nat.add_le_add ?_ ih
    cases part with
    | other c => exact le_rfl
    | mention m written =>
      cases horigin : m.origin? origins with
      | none => rw [shown_of_outside written (Mention.origin?_eq_none_iff.mp horigin)]; rfl
      | some l =>
        have honeLine := Mention.oneLine_replacement hkeys horigin
        rw [shown_of_origin? horigin, List.count_eq_zero_of_not_mem honeLine]
        exact Nat.zero_le _

end CompilerLog

end ShaderWeave
