import Mathlib.Data.List.TakeWhile
import ShaderWeave.Output.Basic
import ShaderWeave.Proofs.Lines
import ShaderWeave.Text.Space

/-!
# Outputs as sheets of rows

An output keeps its text, its origins and its count of ended lines apart. A
sheet shows the three together: ended rows, each with its content and origin,
and the tail that has been begun behind them. Every output of a pass has the
layout of a sheet, and every way of writing has its counterpart on sheets.

## Main definitions

- `Row`: the content of a line and its origin.
- `Sheet`: ended rows, a tail, and the tail's owner if it has one.
- `Sheet.output`: the output that a sheet shows.
- `Sheet.settled`: all rows that have an origin, ended or not.
- `Sheet.Fresh`, `Sheet.Owned`: how a sheet stands before and after a unit.
-/

namespace ShaderWeave

/-- The content of an output line, and where it came from. -/
@[ext]
structure Row where
  content : List Char
  origin : Location
deriving DecidableEq

/-- An output line by line. -/
@[ext]
structure Sheet where
  /-- The ended lines, first line first. -/
  rows : List Row := []
  /-- What stands behind the last line feed. -/
  tail : List Char := []
  /-- The owner of the tail, once it has one. -/
  owner : Option Location := none
  rows_oneLine : ∀ r ∈ rows, '\n' ∉ r.content := by simp
  tail_oneLine : '\n' ∉ tail := by simp
  /-- Only a tail that has been begun can have an owner. -/
  owner_eq_none : tail = [] → owner = none := by simp

namespace Sheet

def text (s : Sheet) : List Char :=
  Text.ended (s.rows.map Row.content) ++ s.tail

/-- The output that the sheet shows. -/
def output (s : Sheet) : Output where
  text := String.ofList s.text
  origins := (s.rows.map Row.origin ++ s.owner.toList).toArray
  closed := s.rows.length

/-- All rows that have an origin: the ended ones, and the tail if it is owned. -/
def settled (s : Sheet) : List Row :=
  s.rows ++ s.owner.toList.map (Row.mk s.tail)

/-- Nobody owns the tail yet, and it is white space. -/
def Fresh (s : Sheet) : Prop :=
  s.owner = none ∧ ∀ c ∈ s.tail, Text.isSpace c

/-- A tail that has been begun is owned. -/
def Owned (s : Sheet) : Prop :=
  s.tail ≠ [] → s.owner ≠ none

/-! ## Writing on a sheet -/

/-- Write a text of one line behind the tail. -/
def write (s : Sheet) (text : List Char) (h : '\n' ∉ text) : Sheet where
  rows := s.rows
  tail := s.tail ++ text
  owner := s.owner
  rows_oneLine := s.rows_oneLine
  tail_oneLine := by simp [s.tail_oneLine, h]
  owner_eq_none := by
    intro hnil
    exact s.owner_eq_none (List.append_eq_nil_iff.mp hnil).1

/-- End the line. Its origin is `l` unless the tail is owned. -/
def endLine (s : Sheet) (l : Location) : Sheet where
  rows := s.rows ++ [⟨s.tail, s.owner.getD l⟩]
  rows_oneLine := by
    intro r hr
    rcases List.mem_append.mp hr with hr | hr
    · exact s.rows_oneLine r hr
    · rw [List.mem_singleton.mp hr]
      exact s.tail_oneLine

/-- Stop writing. A tail that has been begun belongs to `l` unless it is owned. -/
def flush (s : Sheet) (l : Location) : Sheet where
  rows := s.rows
  tail := s.tail
  owner := if s.tail = [] then none else some (s.owner.getD l)
  rows_oneLine := s.rows_oneLine
  tail_oneLine := s.tail_oneLine
  owner_eq_none := by
    intro hnil
    simp [hnil]

theorem fresh_of_tail_eq_nil {s : Sheet} (h : s.tail = []) : s.Fresh :=
  ⟨s.owner_eq_none h, by simp [h]⟩

/-- White space behind white space that nobody owns is owned by nobody either. -/
theorem Fresh.write {s : Sheet} (hs : s.Fresh) {text : List Char}
    (hblank : ∀ c ∈ text, Text.isSpace c) (h : '\n' ∉ text) : (s.write text h).Fresh := by
  refine ⟨hs.1, ?_⟩
  intro c hc
  rcases List.mem_append.mp hc with hc | hc
  · exact hs.2 c hc
  · exact hblank c hc

/-! ## What the operations show -/

theorem output_write (s : Sheet) {text : List Char} (h : '\n' ∉ text) :
    (s.write text h).output = s.output.pushText (String.ofList text) := by
  have htext : (s.write text h).text = s.text ++ text := by simp [Sheet.text, write]
  unfold output
  rw [htext, String.ofList_append]
  rfl

theorem own_output (s : Sheet) (l : Location) :
    s.output.own l =
      ⟨s.output.text, (s.rows.map Row.origin ++ [s.owner.getD l]).toArray, s.rows.length⟩ := by
  cases howner : s.owner with
  | none => simp [Output.own, output, howner, Output.addOrigin]
  | some owner => simp [Output.own, output, howner]

theorem output_endLine (s : Sheet) (l : Location) :
    (s.endLine l).output = s.output.endLine l := by
  have htext : (s.endLine l).text = s.text ++ ['\n'] := by simp [Sheet.text, endLine]
  unfold Output.endLine
  rw [own_output]
  unfold output
  rw [htext, String.ofList_append, ← String.singleton_eq_ofList, String.append_singleton]
  simp [endLine]

theorem isMidLine_output (s : Sheet) : s.output.isMidLine = !s.tail.isEmpty := by
  rcases List.eq_nil_or_concat' s.tail with hnil | ⟨front, c, hc⟩
  · rcases List.eq_nil_or_concat' s.rows with hrows | ⟨rows, r, hrows⟩
    · simp [Output.isMidLine, output, Sheet.text, hnil, hrows, String.back?_eq]
    · simp [Output.isMidLine, output, Sheet.text, hnil, hrows, String.back?_eq]
  · have hne : c ≠ '\n' := by
      rintro rfl
      exact s.tail_oneLine (by simp [hc])
    have hback : s.output.text.back? = some c := by
      simp [output, Sheet.text, hc, String.back?_eq]
    have hempty : s.tail.isEmpty = false := by simp [hc]
    simp [Output.isMidLine, hback, hempty, hne]

theorem lineWidth_output (s : Sheet) : s.output.lineWidth = s.tail.length := by
  have htail : ∀ c ∈ s.tail.reverse, (c != '\n') = true := by
    intro c hc
    have hne : c ≠ '\n' := by
      rintro rfl
      exact s.tail_oneLine (List.mem_reverse.mp hc)
    simp [hne]
  rcases List.eq_nil_or_concat' s.rows with hrows | ⟨rows, r, hrows⟩
  · have hall : s.tail.reverse.takeWhile (· != '\n') = s.tail.reverse :=
      List.takeWhile_eq_self_iff.mpr htail
    simp [Output.lineWidth, output, Sheet.text, hrows, hall]
  · simp [Output.lineWidth, output, Sheet.text, hrows, List.takeWhile_append_of_pos htail]

theorem output_flush (s : Sheet) (l : Location) : (s.flush l).output = s.output.flush l := by
  unfold Output.flush
  rw [isMidLine_output, own_output]
  by_cases hnil : s.tail = []
  · simp [hnil, flush, output, Sheet.text, s.owner_eq_none hnil]
  · simp [hnil, flush, output, Sheet.text]

/-! ## Settled rows -/

theorem settled_eq_rows {s : Sheet} (h : s.owner = none) : s.settled = s.rows := by
  simp [settled, h]

theorem settled_write {s : Sheet} (hs : s.owner = none) {text : List Char} (h : '\n' ∉ text) :
    (s.write text h).settled = s.settled := by
  simp [settled, write, hs]

theorem settled_endLine {s : Sheet} (hs : s.owner = none) (l : Location) :
    (s.endLine l).settled = s.settled ++ [⟨s.tail, l⟩] := by
  simp [settled, endLine, hs]

theorem settled_endLine_of_owner {s : Sheet} (hs : s.owner ≠ none) (l : Location) :
    (s.endLine l).settled = s.settled := by
  obtain ⟨owner, howner⟩ := Option.ne_none_iff_exists'.mp hs
  simp [settled, endLine, howner]

theorem settled_flush {s : Sheet} (hs : s.owner = none) (l : Location) :
    (s.flush l).settled = s.settled ++ if s.tail = [] then [] else [⟨s.tail, l⟩] := by
  by_cases hnil : s.tail = []
  · simp [settled, flush, hs, hnil]
  · simp [settled, flush, hs, hnil]

/-- Where what is begun is owned, there is nothing to settle. -/
theorem flush_eq_self {s : Sheet} (hs : s.Owned) (l : Location) : s.flush l = s := by
  refine Sheet.ext rfl rfl ?_
  by_cases hnil : s.tail = []
  · simp [flush, hnil, s.owner_eq_none hnil]
  · obtain ⟨owner, howner⟩ := Option.ne_none_iff_exists'.mp (hs hnil)
    simp [flush, hnil, howner]

theorem settled_flush_of_owned {s : Sheet} (hs : s.Owned) (l : Location) :
    (s.flush l).settled = s.settled := by
  rw [flush_eq_self hs]

/-- Where what is begun is owned, a line that is begun can be ended without settling
anything. -/
theorem exists_ended {s : Sheet} (hs : s.Owned) (l : Location) :
    ∃ t : Sheet, t.output = (if s.output.isMidLine then s.output.endLine l else s.output) ∧
      t.tail = [] ∧ t.settled = s.settled := by
  rw [s.isMidLine_output]
  by_cases hnil : s.tail = []
  · refine ⟨s, ?_, hnil, rfl⟩
    simp [hnil]
  · refine ⟨s.endLine l, ?_, rfl, settled_endLine_of_owner (hs hnil) l⟩
    simp [hnil, output_endLine]

theorem owned_flush (s : Sheet) (l : Location) : (s.flush l).Owned := by
  intro hne
  have htail : s.tail ≠ [] := hne
  simp [flush, htail]

theorem settled_getElem?_of_prefix {s t : Sheet} (h : s.settled <+: t.settled) {i : Nat} {r : Row}
    (hr : s.settled[i]? = some r) : t.settled[i]? = some r := by
  obtain ⟨rows, hrows⟩ := h
  rw [← hrows, List.getElem?_append_left (List.getElem?_eq_some_iff.mp hr).1, hr]

theorem toList_origins (s : Sheet) : s.output.origins.toList = s.settled.map Row.origin := by
  simp [output, settled, Function.comp_def]

theorem size_origins (s : Sheet) : s.output.origins.size = s.settled.length := by
  rw [← Array.length_toList, toList_origins, List.length_map]

theorem origin?_output (s : Sheet) (i : Nat) :
    s.output.origin? i = s.settled[i]?.map Row.origin := by
  rw [Output.origin?, ← Array.getElem?_toList, toList_origins, List.getElem?_map]

/-! ## The text of a sheet -/

/-- The lines of an output are the contents of its rows, and the tail. -/
theorem lines_output (s : Sheet) :
    Text.lines s.output.text.toList = s.rows.map Row.content ++ [s.tail] := by
  have hclean : ∀ l ∈ s.rows.map Row.content ++ [s.tail], '\n' ∉ l := by
    intro l hl
    rcases List.mem_append.mp hl with hl | hl
    · obtain ⟨r, hr, rfl⟩ := List.mem_map.mp hl
      exact s.rows_oneLine r hr
    · rw [List.mem_singleton.mp hl]
      exact s.tail_oneLine
  have htext : s.output.text.toList = s.text := String.toList_ofList
  have hunlines : s.text = Text.unlines (s.rows.map Row.content ++ [s.tail]) := by
    rw [Text.unlines_append _ (by simp), Text.unlines_singleton, Sheet.text]
  rw [htext, hunlines, Text.lines_unlines hclean (by simp)]

theorem lines_output_getElem? {s : Sheet} {i : Nat} {r : Row} (h : s.settled[i]? = some r) :
    (Text.lines s.output.text.toList)[i]? = some r.content := by
  rw [lines_output]
  cases howner : s.owner with
  | none =>
    have hr : s.rows[i]? = some r := by simpa [settled, howner] using h
    have hi := (List.getElem?_eq_some_iff.mp hr).1
    rw [List.getElem?_append_left (by simpa using hi), List.getElem?_map, hr]
    rfl
  | some owner =>
    have hall : s.rows.map Row.content ++ [s.tail] = s.settled.map Row.content := by
      simp [settled, howner]
    rw [hall, List.getElem?_map, h]
    rfl

theorem closed_output (s : Sheet) : s.output.closed = s.output.text.toList.count '\n' := by
  have hrows : ∀ l ∈ s.rows.map Row.content, '\n' ∉ l := by
    intro l hl
    obtain ⟨r, hr, rfl⟩ := List.mem_map.mp hl
    exact s.rows_oneLine r hr
  have htext : s.output.text.toList = s.text := String.toList_ofList
  rw [htext, Sheet.text, List.count_append, Text.count_ended hrows,
    List.count_eq_zero.mpr s.tail_oneLine]
  simp [output]

/-- There is an origin for every ended line, and one more if the tail is owned. -/
theorem size_origins_eq_closed (s : Sheet) :
    s.output.origins.size = s.output.closed + if s.owner = none then 0 else 1 := by
  cases howner : s.owner with
  | none => simp [output, howner]
  | some owner => simp [output, howner]

/-- An output is shown by one sheet only. -/
theorem output_injective {s t : Sheet} (h : s.output = t.output) : s = t := by
  -- the text gives the contents, and the count tells the owners of rows from that of the tail
  have hlines : s.rows.map Row.content ++ [s.tail] = t.rows.map Row.content ++ [t.tail] := by
    rw [← lines_output, ← lines_output, h]
  obtain ⟨hcontents, htail⟩ := List.append_inj' hlines rfl
  have hlength : s.rows.length = t.rows.length := congrArg Output.closed h
  have horigins : s.rows.map Row.origin ++ s.owner.toList =
      t.rows.map Row.origin ++ t.owner.toList :=
    congrArg (fun o => o.origins.toList) h
  obtain ⟨horigins, howner⟩ := List.append_inj horigins (by simp [hlength])
  have hrows : s.rows = t.rows := by
    apply List.ext_getElem hlength
    intro i hs ht
    have hcontent := congrArg (·[i]?) hcontents
    have horigin := congrArg (·[i]?) horigins
    simp only [List.getElem?_map, List.getElem?_eq_getElem hs, List.getElem?_eq_getElem ht,
      Option.map_some, Option.some.injEq] at hcontent horigin
    exact Row.ext hcontent horigin
  apply Sheet.ext hrows
  · exact (List.cons.inj htail).1
  · simpa using congrArg List.head? howner

end Sheet

end ShaderWeave
