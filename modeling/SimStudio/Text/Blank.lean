/-!
# Blank and Control Characters

The two character classes that the rest of the library asks about.

A *blank* character is one with the Unicode property `White_Space`: names
that consist of blanks alone are refused, and answers typed at a prompt are
trimmed of them. A *control* character is one of general category `Cc`; none
but the line feed and the tab may stand raw in a configuration file.

Core's `Char.isWhitespace` knows ASCII only, and leaves out the vertical tab
and the form feed, so the classes are given here by their code points.

## Main definitions

* `Text.isBlank`: The property `White_Space`.
* `Text.isControl`: The general category `Cc`.
* `Text.trim`: A text without the blanks at its two ends.
-/

namespace SimStudio

namespace Text

/-- The characters with the property `White_Space`. -/
def isBlank (c : Char) : Bool :=
  let n := c.toNat
  (0x09 ≤ n && n ≤ 0x0D) || n == 0x20 || n == 0x85 || n == 0xA0 || n == 0x1680 ||
    (0x2000 ≤ n && n ≤ 0x200A) || n == 0x2028 || n == 0x2029 || n == 0x202F ||
    n == 0x205F || n == 0x3000

/-- The characters of general category `Cc`: the two blocks of control codes
    and the delete character between them. -/
def isControl (c : Char) : Bool :=
  let n := c.toNat
  n ≤ 0x1F || (0x7F ≤ n && n ≤ 0x9F)

/-- The text without the blanks at its two ends. -/
def trim (s : String) : String :=
  String.ofList ((s.toList.dropWhile isBlank).reverse.dropWhile isBlank).reverse

/-- A text is blank if nothing but blanks stands in it; the empty text is. -/
def AllBlank (s : String) : Prop :=
  ∀ c ∈ s.toList, isBlank c = true

instance (s : String) : Decidable (AllBlank s) :=
  decidable_of_iff (s.toList.all isBlank = true) List.all_eq_true

end Text

end SimStudio
