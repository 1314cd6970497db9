/-!
# Lines

A line feed separates two lines, so a text with `n` line feeds has `n + 1`
lines, the last of which is empty when the text ends in a line feed.

## Main definitions

- `Text.lines`, `Text.unlines`: the lines of a text, and the text of the lines.
- `Text.firstLine`: the part before the first line feed.
- `Text.shownLines`: the lines as a listing shows them.
- `Text.pieces`: the lines with their line feeds, as far as there is something in them.
- `Text.indent`: shift every line after the first to the right.
-/

namespace ShaderWeave.Text

/-- The lines of a text: the parts between its line feeds. -/
def lines (text : List Char) : List (List Char) :=
  text.splitOn '\n'

/-- The text with the given lines, a line feed between each two of them. -/
def unlines (ls : List (List Char)) : List Char :=
  ['\n'].intercalate ls

/-- The part of the text before its first line feed. -/
def firstLine (text : List Char) : List Char :=
  text.takeWhile (· != '\n')

/-! ## Listing lines -/

/-- The line without one carriage return at its end. -/
def dropReturn (line : List Char) : List Char :=
  if line.getLast? = some '\r' then line.dropLast else line

/-- The lines of a text as a listing shows them: a carriage return in front of a
line feed belongs to the line end, and an empty last line is not a line. -/
def shownLines (text : List Char) : List (List Char) :=
  let ls := lines text
  let last := ls.getLast?.getD []
  ls.dropLast.map dropReturn ++ if last.isEmpty then [] else [last]

/-! ## Indentation -/

/-- The text cut behind each of its line feeds. There is no piece behind a line
feed that ends the text, and the empty text has none at all. -/
def pieces : List Char → List (List Char)
  | [] => []
  | c :: rest =>
    if c = '\n' then [c] :: pieces rest
    else
      match pieces rest with
      | [] => [[c]]
      | piece :: others => (c :: piece) :: others

/-- The piece without the carriage returns and line feeds at its end. -/
def trimLineEnd (piece : List Char) : List Char :=
  (piece.reverse.dropWhile fun c => c == '\r' || c == '\n').reverse

/-- Put `pad` in front of every piece after the first that has some content. -/
def indent (pad text : List Char) : List Char :=
  if pad.isEmpty then text
  else
    (pieces text).zipIdx.flatMap fun (piece, i) =>
      if 0 < i && !(trimLineEnd piece).isEmpty then pad ++ piece else piece

/-- Joining the lines of a text gives the text back. -/
@[simp]
theorem unlines_lines (text : List Char) : unlines (lines text) = text :=
  List.intercalate_splitOn '\n'

end ShaderWeave.Text
