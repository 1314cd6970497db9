import ShaderWeave.Output.Basic
import ShaderWeave.Text.Line

/-!
# Listing of an output

A listing shows every line of an output with the file name and the line number
of its origin in front, in two columns.

## Main definitions

- `Output.nameWidth`: length of the longest file name.
- `Output.row`: one row of the listing.
- `Output.listing`: the whole listing.

## Design notes

The length of a file name is taken in UTF-8 bytes, while a name is filled up by
its number of characters. All names are filled up to one width, so the columns
line up for names in any script.
-/

namespace ShaderWeave.Output

/-- Length in bytes of the longest file name among the origins. -/
def nameWidth (o : Output) : Nat :=
  o.origins.foldl (fun width l => max width l.fileName.utf8ByteSize) 0

/-- The row of a line: the file name in a column of the given width, the line
number in at least four places, a colon and the line. A line without an origin
has no file name and the number zero. -/
def row (o : Output) (width index : Nat) (line : List Char) : List Char :=
  let origin := (o.origin? index).getD ⟨"", 0⟩
  Text.padRight width origin.fileName.toList
    ++ Text.padLeft 4 (Text.numeral origin.line).toList ++ [':', ' '] ++ line ++ ['\n']

/-- All rows, one for each line of the text. -/
def listing (o : Output) : String :=
  let width := o.nameWidth + 1
  String.ofList ((Text.shownLines o.text.toList).mapIdx (o.row width)).flatten

end ShaderWeave.Output
