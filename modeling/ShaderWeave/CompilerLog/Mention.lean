import ShaderWeave.Location
import ShaderWeave.Text.DecimalDigit
import ShaderWeave.Text.Space

/-!
# Mentions of lines in compiler logs

A compiler names lines of the flattened text it was given. Two forms are in
use: `ERROR: 0:12` and `WARNING: 0:12`, and plain `0(12)`. The first number is
that of a source string and is of no use; the second is the line, counted from
one.

## Main definitions

- `LogTag`: the word in front of a tagged mention.
- `LogTag.lead`: the tag as it stands in front of a location.
- `Mention`: a line mentioned in a log.
- `Mention.tagged?`, `Mention.bare?`: the mention that begins a text.
- `Mention.replacement?`: the location that takes the mention's place.

## Design notes

The forms are the two patterns `(?m)^(ERROR|WARNING):\s*(\d+):(\d+)` and
`(?m)^(\d+)\((\d+)\)`. How a pattern is matched is assumed here and built into
the functions. A line begins at the start of the text and behind every line feed.
A digit is a character of the category Nd, and white space is what has the
property White_Space, the line feed included. A repetition takes all it can get.
Nowhere does a shorter one help, as what follows it begins with a character that
it does not take. So at most one match begins at a place.

Digits of every script make up a mention, but only a number in the digits `0` to
`9` names a line. White space after the colon of a tag may hold line feeds.
-/

namespace ShaderWeave

/-- The word in front of a tagged mention. -/
inductive LogTag where
  | error
  | warning
deriving DecidableEq

def LogTag.word : LogTag → List Char
  | error => "ERROR".toList
  | warning => "WARNING".toList

/-- What stands in front of a location: the tag, if there is one, with a colon and
a space. -/
def LogTag.lead : Option LogTag → List Char
  | some tag => tag.word ++ [':', ' ']
  | none => []

/-- A line mentioned in a log. -/
structure Mention where
  tag : Option LogTag
  digits : List Char
  /-- How many characters the mention takes. -/
  length : Nat
deriving DecidableEq

namespace Mention

/-- The digits that begin a text, and what follows them. There is at least one. -/
def digits? (text : List Char) : Option (List Char × List Char) :=
  match text.takeWhile Text.isDecimalDigit with
  | [] => none
  | digits => some (digits, text.dropWhile Text.isDecimalDigit)

/-- What follows a given beginning of a text. -/
def after? (beginning text : List Char) : Option (List Char) :=
  if beginning.isPrefixOf text then some (text.drop beginning.length) else none

/-- The mention with the given tag that begins a text: the tag, a colon, white
space, the number of a source string, a colon and the line number. -/
def taggedWith? (tag : LogTag) (text : List Char) : Option Mention := do
  let rest ← after? (tag.word ++ [':']) text
  let blank := rest.takeWhile Text.isSpace
  let (string, rest) ← digits? (rest.dropWhile Text.isSpace)
  let rest ← after? [':'] rest
  let (digits, _) ← digits? rest
  return ⟨tag, digits, tag.word.length + 1 + blank.length + string.length + 1 + digits.length⟩

/-- The tagged mention that begins a text. -/
def tagged? (text : List Char) : Option Mention :=
  taggedWith? .error text <|> taggedWith? .warning text

/-- The bare mention that begins a text: the number of a source string, and the
line number in parentheses. -/
def bare? (text : List Char) : Option Mention := do
  let (string, rest) ← digits? text
  let rest ← after? ['('] rest
  let (digits, rest) ← digits? rest
  let _ ← after? [')'] rest
  return ⟨none, digits, string.length + 1 + digits.length + 1⟩

/-- The origin of the mentioned line, if the text the log is about has it. -/
def origin? (m : Mention) (origins : Array Location) : Option Location := do
  let line ← Text.plainNumber? m.digits
  if line = 0 then none else origins[line - 1]?

/-- The text in place of a mention: the origin of its line, after the tag. -/
def replacement? (m : Mention) (origins : Array Location) : Option (List Char) := do
  let origin ← m.origin? origins
  return LogTag.lead m.tag ++ origin.reference.toList

end Mention

end ShaderWeave
