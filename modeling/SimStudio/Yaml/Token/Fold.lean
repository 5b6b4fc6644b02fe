import SimStudio.Yaml.Token

/-!
# Folding of Line Ends

In plain and quoted scalars the space between two words may run over several
lines. Blanks within a line are content. Once a line has ended, the blanks
before and behind the end are not: the first line end becomes a space if it is
the only one, and otherwise stands for the line ends behind it. A line or
paragraph separator is never folded away.

## Main definitions

* `Yaml.Gap`: What has been read since the last word.
* `Yaml.Gap.text`: What it contributes to the scalar.
-/

namespace SimStudio

namespace Yaml

/-- What a scanner has read since the last word of a scalar. -/
inductive Gap
  /-- Blanks of the line, in reverse. -/
  | blanks (cs : List Char)
  /-- One or more line ends: the first of them, unless it was escaped, and the
      later ones in reverse. -/
  | lines (first : Option Char) (later : List Char)
  deriving Inhabited

namespace Gap

/-- Nothing read since the last word. -/
def none : Gap := .blanks []

/-- Whether nothing has been read since the last word. -/
def isNone : Gap → Bool
  | .blanks [] => true
  | _ => false

/-- Whether a line has ended since the last word. -/
def endsLine : Gap → Bool
  | .blanks _ => false
  | .lines .. => true

/-- Read a blank; behind a line end blanks are dropped. -/
def addBlank (c : Char) : Gap → Gap
  | .blanks cs => .blanks (c :: cs)
  | .lines first later => .lines first later

/-- Read a line end. -/
def addBreak (b : Char) : Gap → Gap
  | .blanks _ => .lines (some b) []
  | .lines first later => .lines first (b :: later)

/-- The contribution to the scalar, in reverse. -/
def text : Gap → List Char
  | .blanks cs => cs
  | .lines (some '\n') [] => [' ']
  | .lines (some '\n') later => later
  | .lines (some b) later => later ++ [b]
  | .lines .none later => later

end Gap

end Yaml

end SimStudio
