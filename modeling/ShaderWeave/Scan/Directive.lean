import ShaderWeave.Segment.Plan

/-!
# Directives

A directive takes a line of its own, white space in front apart. An inclusion
begins with `#include` and quotes a path; a placeholder is a line that consists
of a registered placeholder name.

## Main definitions

- `Directive`: an inclusion or a placeholder.
- `Directive.quotedPath?`: the path that an inclusion quotes.
- `Directive.read?`: the directive that begins at a place in a text.

## Design notes

An inclusion wins over a placeholder whose name begins with `#include`. A line
that begins with a slash is left to the comment rules and is no placeholder,
even if one has that name.
-/

namespace ShaderWeave

/-- What a directive line asks for. -/
inductive Directive where
  /-- The text behind a path; `none` if the line quotes no path. -/
  | inclusion (path : Option String)
  | placeholder (name : String)
deriving DecidableEq

namespace Directive

def inclusionWord : List Char :=
  "#include".toList

/-- The text between the first two double quotes of a line. -/
def quotedPath? (line : List Char) : Option (List Char) :=
  match line.dropWhile (· != '"') with
  | [] => none
  | _ :: opened =>
    if '"' ∈ opened then some (opened.takeWhile (· != '"')) else none

/-- The directive that begins with the first character of a text. The text
stands at the start of a line, white space apart. -/
def read? (plan : Plan) (text : List Char) : Option Directive :=
  match text with
  | [] => none
  | c :: _ =>
    if Text.isSpace c ∨ c = '/' then none
    else if inclusionWord.isPrefixOf text then
      let line := (Text.firstLine text).drop inclusionWord.length
      some (inclusion ((quotedPath? line).map String.ofList))
    else
      (plan.placeholderAt? text).map placeholder

end Directive

end ShaderWeave
