import ShaderWeave.Text.Space

/-!
# Scanning modes

A source unit is read character by character. The mode tells what the
characters read so far make of the next one: code, a comment, the rest of a
directive line, or a place where a directive may begin.

## Main definitions

- `CommentPoint`: where in a block comment the scan stands.
- `Mode`: the scanning mode.
- `Mode.next`: the mode after a character.

## Design notes

`Mode.next` never enters `Mode.directive`: that a directive begins is seen from
the whole line, not from one character. A block comment that ends leaves the
scan in code, so the rest of its line holds no directive.
-/

namespace ShaderWeave

/-- Where in a block comment the scan stands. -/
inductive CommentPoint where
  /-- The last character was no star, or the comment has just begun. -/
  | inside
  /-- The last character was a star, so a slash ends the comment. -/
  | afterStar
deriving DecidableEq

/-- What the characters read so far make of the next one. -/
inductive Mode where
  /-- Only white space stands on the line so far. -/
  | lineStart
  /-- The last character was a slash that may begin a comment. -/
  | slash
  | lineComment
  /-- In a comment that ends with a star and a slash. -/
  | blockComment (point : CommentPoint)
  /-- On a directive line that has been acted on. `replaced` tells whether
  text was put in its place. -/
  | directive (replaced : Bool)
  | code
deriving DecidableEq

namespace Mode

/-- The mode after the character `c`. -/
def next : Mode → Char → Mode
  | lineStart, c => if Text.isSpace c then lineStart else if c = '/' then slash else code
  | slash, c =>
    if c = '/' then lineComment
    else if c = '*' then blockComment .inside
    else if c = '\n' then lineStart
    else code
  | lineComment, c => if c = '\n' then lineStart else lineComment
  | blockComment .inside, c => blockComment (if c = '*' then .afterStar else .inside)
  | blockComment .afterStar, c =>
    if c = '/' then code else blockComment (if c = '*' then .afterStar else .inside)
  | directive replaced, c => if c = '\n' then lineStart else directive replaced
  | code, c => if c = '/' then slash else if c = '\n' then lineStart else code

end Mode

end ShaderWeave
