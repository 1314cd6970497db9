import ShaderWeave.CompilerLog.Mention
import ShaderWeave.Output.Basic

/-!
# Compiler logs in terms of the sources

A compiler reports on the flattened text. Its log becomes useful when the lines
it mentions are replaced by the locations they came from.

## Main definitions

- `CompilerLog.replaceMentions`: replace the mentions of one form.
- `CompilerLog.resolve`: replace tagged mentions, then bare ones.
- `Compilation`: what a compiler returns.
- `Output.compile`: run a compiler on an output and resolve its log.

## Design notes

A mention counts only at the start of a line. A mention of a line that has no
origin stays as it is.

All mentions of one form are replaced in one sweep from left to right, and none
overlaps another. This order is assumed of the pattern matcher, like the patterns
themselves (`CompilerLog.Mention`). Behind a replaced mention the sweep goes on
where the mention ends. Within one that stays it looks again behind each line
feed, and finds nothing: white space or a digit stands there, and no tag.
-/

namespace ShaderWeave

namespace CompilerLog

/-- Replace the mentions of one form in a text. `atStart` tells whether a line
begins here, and `skip` how many characters of a replaced mention are left. -/
def replaceMentions (form : List Char → Option Mention) (origins : Array Location) :
    (atStart : Bool) → (skip : Nat) → List Char → List Char
  | _, _, [] => []
  | _, skip + 1, c :: cs => replaceMentions form origins (c == '\n') skip cs
  | atStart, 0, c :: cs =>
    let found := do
      let m ← if atStart then form (c :: cs) else none
      let replacement ← m.replacement? origins
      return (replacement, m.length)
    match found with
    | some (replacement, length) =>
      replacement ++ replaceMentions form origins (c == '\n') (length - 1) cs
    | none => c :: replaceMentions form origins (c == '\n') 0 cs

def replaceAll (form : List Char → Option Mention) (origins : Array Location) (log : List Char) :
    List Char :=
  replaceMentions form origins true 0 log

/-- The log with its mentions of lines replaced by their origins: tagged
mentions first, then the bare mentions of the result. -/
def resolve (origins : Array Location) (log : String) : String :=
  String.ofList (replaceAll Mention.bare? origins (replaceAll Mention.tagged? origins log.toList))

end CompilerLog

/-- What a compiler returns: a product of its own kind, and perhaps a log. -/
structure Compilation (α : Type) where
  artifact : α
  log : Option String

/-- Run a compiler on the text of an output and resolve the log it returns. -/
def Output.compile {α : Type} (o : Output) (compiler : String → Compilation α) : Compilation α :=
  let made := compiler o.text
  { made with log := made.log.map (CompilerLog.resolve o.origins) }

end ShaderWeave
