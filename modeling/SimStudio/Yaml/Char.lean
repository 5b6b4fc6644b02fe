/-!
# Character Classes of YAML

The classes that decide where the lexemes of a YAML text end, and which
characters may stand in a text at all.

Five characters end a line: the line feed, the carriage return, the next-line
control, and the line and paragraph separators. The first three are read as a
line feed, the separators as themselves.

## Main definitions

* `Yaml.isBreak`, `Yaml.isSpace`, `Yaml.isGap`: Line ends, blanks, and both.
* `Yaml.isWord`: The characters of anchors, handles and directive names.
* `Yaml.isReadable`: The characters that may stand in a text.
* `Yaml.isPrintable`: The characters that need no escape in a written text.
* `Yaml.normalBreak`: How a line end is read.
-/

namespace SimStudio

namespace Yaml

/-- The characters that end a line. -/
def isBreak (c : Char) : Bool :=
  c == '\n' || c == '\r' || c == '\u0085' || c == '\u2028' || c == '\u2029'

/-- The blanks inside a line. -/
def isSpace (c : Char) : Bool := c == ' ' || c == '\t'

/-- What separates words: blanks and line ends. -/
def isGap (c : Char) : Bool := isSpace c || isBreak c

/-- Whether a lexeme ends here: at a blank, a line end or the end of the text. -/
def endsWord : List Char → Bool
  | [] => true
  | c :: _ => isGap c

/-- The characters of anchors, tag handles and directive names. -/
def isWord (c : Char) : Bool := c.isAlphanum || c == '_' || c == '-'

/-- The byte order mark, which may begin a line. -/
def byteOrderMark : Char := '\ufeff'

/-- The characters that may stand in a text: no control characters but the tab
    and line ends, and no non-characters of the basic plane. -/
def isReadable (c : Char) : Bool :=
  let n := c.toNat
  n == 0x09 || n == 0x0A || n == 0x0D || (0x20 ≤ n && n ≤ 0x7E) || n == 0x85 ||
    (0xA0 ≤ n && n ≤ 0xD7FF) || (0xE000 ≤ n && n ≤ 0xFFFD) || 0x10000 ≤ n

/-- The characters that are written as they are. The tab is not among them. -/
def isPrintable (c : Char) : Bool :=
  let n := c.toNat
  n == 0x0A || (0x20 ≤ n && n ≤ 0x7E) || (0xA0 ≤ n && n ≤ 0xD7FF) ||
    (0xE000 ≤ n && n ≤ 0xFFFD && n != 0xFEFF) || 0x10000 ≤ n

/-- How a line end is read: the separators as themselves, all others as a line
    feed. -/
def normalBreak (c : Char) : Char :=
  if c == '\u2028' || c == '\u2029' then c else '\n'

/-- Three dashes or three points that stand by themselves separate documents
    when they begin a line. -/
def atDocumentMark : List Char → Bool
  | '-' :: '-' :: '-' :: rest => endsWord rest
  | '.' :: '.' :: '.' :: rest => endsWord rest
  | _ => false

end Yaml

end SimStudio
