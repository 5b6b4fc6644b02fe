import SimStudio.Fault

/-!
# Splicing Text

Putting a text in the place of a selected part of another one.

A selection is counted in characters, from 0 to the length of the text, while
a string is cut at positions in its encoding. `charPosition` leads from the
one to the other.

## Main definitions

* `charPosition`: The position before the character with a number.
* `Splice`: A text, and where the caret stands after what was put in.
* `splice`: Put a text in the place of a selection.
-/

namespace SimStudio

/-- A text, and where the caret stands in it, in characters. -/
structure Splice where
  text : String
  caret : Nat
  deriving DecidableEq, Inhabited

/-- The position before the character with a number; past the last character
    that is the end of the text. -/
def charPosition (text : String) (index : Nat) : text.Pos := text.startPos.nextn index

/-- Put `literal` in the place of the characters from `first` up to `last`. The
    caret comes to stand behind it. Where the two numbers agree, nothing is
    taken out. -/
def splice (buffer : String) (first last : Nat) (literal : String) : Except Fault Splice :=
  if last < first then .error (.selectionReversed first last)
  else if buffer.length < last then .error (.selectionPastEnd last)
  else
    let head := buffer.sliceTo (charPosition buffer first)
    let tail := buffer.sliceFrom (charPosition buffer last)
    .ok ⟨head.copy ++ literal ++ tail.copy, first + literal.length⟩

end SimStudio
