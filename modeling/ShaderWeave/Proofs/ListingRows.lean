import Mathlib.Data.List.Fold
import Mathlib.Data.List.MinMax
import Mathlib.Data.Nat.Digits.Defs
import ShaderWeave.Output.Listing
import ShaderWeave.Proofs.EntryFile

/-!
# The rows of a listing

The lines of an output are counted twice: when they are ended, where each of them gets its
origin, and when the text is listed. After a pass that succeeds the two counts agree, so that
every row has an origin to show. The file names are filled up to the width of the widest, which
is measured in bytes. No name has more characters than bytes, so they all fit, and the lines
begin in one column.

## Main definitions

- `Text.Shows`: how a line of a text is shown.
- `Location.Label`: a file name and a line number as they stand in front of a line.
- `Output.Complete`: the output is what a successful pass has left.

## Main results

- `Text.shows_of_shownLines`: the lines that are shown are those of the text.
- `Output.length_label`: the column in which the lines begin.
- `listing_shows_all_lines`: the whole statement.
-/

namespace ShaderWeave

/-! ## Lines that are shown -/

namespace Text

variable {text line shown : List Char} {width i : Nat}

/-- How line `i` of a text is shown: without the carriage return of a line end that has one, and
as it stands otherwise. The last line has no line end. -/
inductive Shows (text : List Char) (i : Nat) : List Char → Prop
  | returned {line : List Char} : (lines text)[i]? = some (line ++ ['\r']) →
      i + 1 < (lines text).length → Shows text i line
  | whole {line : List Char} : (lines text)[i]? = some line →
      (i + 1 < (lines text).length → line.getLast? ≠ some '\r') → Shows text i line

theorem shows_dropReturn (h : (lines text)[i]? = some line) (hlt : i + 1 < (lines text).length) :
    Shows text i (dropReturn line) := by
  unfold dropReturn
  split
  · next hreturn =>
    rw [← List.dropLast_append_getLast? '\r' hreturn] at h
    exact .returned h hlt
  · next hwhole => exact .whole h fun _ => hwhole

theorem shows_of_shownLines (h : (shownLines text)[i]? = some shown) : Shows text i shown := by
  obtain ⟨ls, last, hlines, -⟩ := exists_ended_append text
  have hshown : shownLines text = ls.map dropReturn ++ if last.isEmpty then [] else [last] := by
    simp [shownLines, hlines]
  rw [hshown] at h
  rcases Nat.lt_or_ge i ls.length with hlt | hge
  · rw [List.getElem?_append_left (by rwa [List.length_map]), List.getElem?_map] at h
    obtain ⟨line, hline, rfl⟩ := Option.map_eq_some_iff.mp h
    refine shows_dropReturn ?_ ?_
    · rw [hlines, List.getElem?_append_left hlt, hline]
    · rw [hlines, List.length_append, List.length_singleton]
      omega
  · rw [List.getElem?_append_right (by rwa [List.length_map]), List.length_map] at h
    have hlast : [last][i - ls.length]? = some shown := by
      split at h
      · cases h
      · exact h
    have hi : i < (lines text).length ∧ (lines text).length ≤ i + 1 := by
      have hlt := (List.getElem?_eq_some_iff.mp hlast).1
      simp only [hlines, List.length_append, List.length_singleton] at hlt ⊢
      omega
    refine .whole ?_ fun hlt => absurd hi.2 (Nat.not_le.mpr hlt)
    rw [hlines, List.getElem?_append_right hge, hlast]

/-! ## Columns -/

/-- A text has no more characters than bytes. -/
theorem length_le_utf8ByteSize (cs : List Char) : cs.length ≤ (String.ofList cs).utf8ByteSize := by
  induction cs with
  | nil => exact Nat.zero_le _
  | cons c cs ih =>
    have hsplit : String.ofList (c :: cs) = String.singleton c ++ String.ofList cs := by
      rw [← List.singleton_append, String.ofList_append, String.singleton_eq_ofList]
    have hpos := c.utf8Size_pos
    rw [hsplit, String.utf8ByteSize_append, String.utf8ByteSize_singleton, List.length_cons]
    omega

theorem length_padRight (h : text.length ≤ width) : (padRight width text).length = width := by
  rw [padRight, List.length_append, List.length_replicate]
  omega

theorem length_padLeft (h : text.length ≤ width) : (padLeft width text).length = width := by
  rw [padLeft, List.length_append, List.length_replicate]
  omega

theorem length_numeral_le {n : Nat} (h : n < 10000) : (numeral n).toList.length ≤ 4 := by
  rw [numeral, String.toList_ofList]
  exact (Nat.length_toDigits_le_iff (by decide) (by decide)).mpr h

end Text

/-! ## Labels -/

namespace Location

/-- The name is the part of the key behind its last slash, or the key if that has no slash. -/
def Names (l : Location) (name : List Char) : Prop :=
  '/' ∉ name ∧ (l.key.toList = name ∨ ∃ front, l.key.toList = front ++ '/' :: name)

/-- The name of the location, a space or more, and its line number, which has the spaces in
front that make it four characters long. -/
def Label (l : Location) (label : List Char) : Prop :=
  ∃ name gap fill, l.Names name ∧ 0 < gap ∧
    fill + (Text.numeral l.line).toList.length = max 4 (Text.numeral l.line).toList.length ∧
    label = name ++ List.replicate gap ' ' ++
      (List.replicate fill ' ' ++ (Text.numeral l.line).toList)

theorem names_fileName (l : Location) : l.Names l.fileName.toList := by
  have hsplit : l.key.toList =
      (l.key.toList.reverse.dropWhile (· != '/')).reverse ++ l.fileName.toList := by
    rw [fileName, String.toList_ofList, ← List.reverse_append, List.takeWhile_append_dropWhile,
      List.reverse_reverse]
  constructor
  · intro hslash
    rw [fileName, String.toList_ofList, List.mem_reverse] at hslash
    simpa using List.mem_takeWhile_imp hslash
  · cases hrest : l.key.toList.reverse.dropWhile (· != '/') with
    | nil =>
      rw [hrest, List.reverse_nil, List.nil_append] at hsplit
      exact Or.inl hsplit
    | cons c rest =>
      obtain rfl : c = '/' := by
        have hhead := List.head?_dropWhile_not (· != '/') l.key.toList.reverse
        rw [hrest] at hhead
        simpa using hhead
      rw [hrest, List.reverse_cons, List.append_assoc, List.singleton_append] at hsplit
      exact Or.inr ⟨rest.reverse, hsplit⟩

end Location

namespace Output

variable {o : Output} {l : Location} {i : Nat}

/-- What stands in front of a line that comes from `l`. -/
def label (o : Output) (l : Location) : List Char :=
  Text.padRight (o.nameWidth + 1) l.fileName.toList ++
    Text.padLeft 4 (Text.numeral l.line).toList

theorem utf8ByteSize_le_nameWidth (h : l ∈ o.origins) :
    l.fileName.utf8ByteSize ≤ o.nameWidth := by
  have hwidth : o.nameWidth =
      (o.origins.toList.map fun l => l.fileName.utf8ByteSize).foldr max 0 := by
    rw [nameWidth, ← Array.foldl_toList, ← List.foldl_eq_foldr, List.foldl_map]
  rw [hwidth]
  exact List.le_max_of_le' 0 (List.mem_map_of_mem h.val) le_rfl

/-- Every file name fits in its column with a space to spare. -/
theorem length_fileName_lt (h : l ∈ o.origins) : l.fileName.toList.length < o.nameWidth + 1 := by
  have hbytes := Text.length_le_utf8ByteSize l.fileName.toList
  have hwidth := utf8ByteSize_le_nameWidth h
  rw [String.ofList_toList] at hbytes
  omega

theorem label_label (h : l ∈ o.origins) : l.Label (o.label l) := by
  have hname := length_fileName_lt h
  refine ⟨l.fileName.toList, o.nameWidth + 1 - l.fileName.toList.length,
    4 - (Text.numeral l.line).toList.length, l.names_fileName, by omega, by omega, rfl⟩

/-- A line number of at most four digits leaves the line in its column. -/
theorem length_label (h : l ∈ o.origins) (hline : l.line < 10000) :
    (o.label l).length = o.nameWidth + 5 := by
  have hname := length_fileName_lt h
  rw [label, List.length_append, Text.length_padRight (by omega),
    Text.length_padLeft (Text.length_numeral_le hline)]

theorem row_eq (h : o.origin? i = some l) (line : List Char) :
    o.row (o.nameWidth + 1) i line = o.label l ++ [':', ' '] ++ line ++ ['\n'] := by
  simp only [row, h, Option.getD_some, label]

/-! ## Successful passes -/

/-- The output is what a pass leaves that succeeds: a pass of its own, or the last call of a
session. -/
inductive Complete : Output → Prop
  | pass {σ : Type} {w : Weaver σ} {stock : σ} {o : Output} (h : w.Makes stock o) : Complete o
  | call (calls : List Call) (call : Call) {p : Pass call.σ}
      (h : call.run (session calls) = .ok () p) : Complete p.output

theorem Complete.size_origins (h : o.Complete) :
    o.origins.size = (Text.shownLines o.text.toList).length := by
  cases h with
  | pass h => exact h.size_origins
  | call calls call h => exact Weaver.size_origins_of_unitAt (tallied_session calls) h

end Output

/-- After a pass that succeeds, every line that the listing shows has an origin, and the listing
consists of one row for each origin. The row has the file name of the origin, a space or more,
the line number in at least four places, a colon and a space, the line of the output, and a line
feed. In all rows with line numbers below 10000 the colon stands in the same column. -/
theorem listing_shows_all_lines {o : Output} (h : o.Complete) :
    (∀ i < (Text.shownLines o.text.toList).length, ∃ l, o.origin? i = some l) ∧
    ∃ rows : List (List Char), o.listing = String.ofList rows.flatten ∧
      rows.length = o.origins.size ∧
      ∃ column, ∀ i l, o.origin? i = some l → ∃ label shown,
        l.Label label ∧ Text.Shows o.text.toList i shown ∧
        rows[i]? = some (label ++ [':', ' '] ++ shown ++ ['\n']) ∧
        (l.line < 10000 → label.length = column) := by
  have hsize := h.size_origins
  refine ⟨fun i hi => ?_, (Text.shownLines o.text.toList).mapIdx (o.row (o.nameWidth + 1)), rfl,
    ?_, o.nameWidth + 5, fun i l hl => ?_⟩
  · exact ⟨o.origins[i], Array.getElem?_eq_getElem (by omega)⟩
  · rw [List.length_mapIdx, hsize]
  · obtain ⟨hlt, rfl⟩ := Array.getElem?_eq_some_iff.mp hl
    have hmem : o.origins[i] ∈ o.origins := Array.getElem_mem hlt
    have hshown : (Text.shownLines o.text.toList)[i]? = some (Text.shownLines o.text.toList)[i] :=
      List.getElem?_eq_getElem (by omega)
    refine ⟨o.label o.origins[i], _, Output.label_label hmem, Text.shows_of_shownLines hshown, ?_,
      Output.length_label hmem⟩
    rw [List.getElem?_mapIdx, hshown, Option.map_some, Output.row_eq hl]

namespace Sample

/-- A text in memory under a key with characters of several bytes. -/
def sizes : Library :=
  .ofList [("lib/größe.glsl", "float g;\r\nfloat h;")]

def sized : SourceUnit :=
  ⟨"src/main.frag", "a\r\n#include \"lib/größe.glsl\"\nb\r"⟩

def sizedOutput : Output where
  text := "a\r\nfloat g;\r\nfloat h;\nb\r"
  origins := #[⟨"src/main.frag", 1⟩, ⟨"lib/größe.glsl", 1⟩, ⟨"lib/größe.glsl", 2⟩,
    ⟨"src/main.frag", 3⟩]
  closed := 3

end Sample

/-- Names of nine and of ten characters, the latter with two bytes more, leave the lines in one
column. -/
theorem listing_shows_all_lines_sample :
    Sample.sizedOutput.Complete ∧
    ∃ (rows : List (List Char)) (column : Nat),
      Sample.sizedOutput.listing = String.ofList rows.flatten ∧ rows.length = 4 ∧
      ∀ i < 4, ∃ label shown, Text.Shows Sample.sizedOutput.text.toList i shown ∧
        rows[i]? = some (label ++ [':', ' '] ++ shown ++ ['\n']) ∧ label.length = column := by
  have hweave : ∃ pass, ({ supplier := Library.supplier } : Weaver Library).weave Sample.sized
      Sample.sizes = .ok Sample.sizedOutput pass := by decide +kernel
  obtain ⟨pass, hweave⟩ := hweave
  have hcomplete : Sample.sizedOutput.Complete := .pass (Or.inl ⟨Sample.sized, pass, hweave⟩)
  obtain ⟨-, rows, hlisting, hrows, column, hshown⟩ := listing_shows_all_lines hcomplete
  refine ⟨hcomplete, rows, column, hlisting, hrows, fun i hi => ?_⟩
  have hlines : ∀ l ∈ Sample.sizedOutput.origins, l.line < 10000 := by decide
  obtain ⟨label, shown, -, hshows, hrow, hcolumn⟩ := hshown i _ (Array.getElem?_eq_getElem hi)
  exact ⟨label, shown, hshows, hrow, hcolumn (hlines _ (Array.getElem_mem hi))⟩

example : Sample.sizedOutput.listing =
    "main.frag       1: a\ngröße.glsl      1: float g;\ngröße.glsl      2: float h;\n" ++
      "main.frag       3: b\r\n" := by decide +kernel

end ShaderWeave
