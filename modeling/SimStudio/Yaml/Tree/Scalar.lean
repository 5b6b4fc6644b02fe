import SimStudio.Yaml.Tree
import SimStudio.Yaml.Token

/-!
# Writing Scalars

How a text is written as a scalar that reads back as that text.

A text with a line feed becomes a literal block. Any other text is written
plain, unless it would then mean something else: in single quotes if it would
be null, a truth value or a number, or if it contains what a plain scalar
cannot. Where neither block nor single quotes can carry a text, it is written
in double quotes, with escapes.

Which forms can carry a text depends on a few questions about it, which
`Yaml.Shape` answers: whether it begins or ends with a space or a line end,
whether the two meet, whether it contains characters that need an escape, and
whether it contains the marks of other lexemes.

## Main definitions

* `Yaml.Shape`: What the choice of a style depends on.
* `Yaml.styleOf`: The style in which a text is written.
* `Yaml.scalarText`: A text as a scalar, at a given indentation.
-/

namespace SimStudio

namespace Yaml

/-- Whether two characters of the given classes stand side by side. -/
def adjacent (p q : Char → Bool) : List Char → Bool
  | a :: b :: rest => (p a && q b) || adjacent p q (b :: rest)
  | _ => false

/-- The marks that keep a plain scalar from beginning. -/
def isLeadingMark (c : Char) : Bool := "#,[]\x7b\x7d&*!|>'\"%@`".toList.contains c

/-- Whether a mark of another lexeme stands behind the first character: a colon
    before a gap, or a number sign behind one. -/
def innerMark (before : Char) : List Char → Bool
  | [] => false
  | c :: rest => (c == ':' && endsWord rest) || (c == '#' && isGap before) || innerMark c rest

/-- Whether a text contains marks of other lexemes, so that it cannot be plain. -/
def hasMark : List Char → Bool
  | [] => false
  | c :: rest =>
      isLeadingMark c || ((c == '?' || c == ':' || c == '-') && endsWord rest) ||
        innerMark c rest ||
        ['-', '-', '-'].isPrefixOf (c :: rest) || ['.', '.', '.'].isPrefixOf (c :: rest)

/-- What the choice of a style depends on. -/
structure Shape where
  /-- Whether a line ends in the text. -/
  multiline : Bool
  /-- Whether it can be written plain. -/
  plain : Bool
  /-- Whether it can be written in single quotes. -/
  single : Bool
  /-- Whether it can be written as a block. -/
  block : Bool
  deriving DecidableEq, Inhabited

/-- The shape of a text. -/
def shapeOf (cs : List Char) : Shape :=
  let isBlank (c : Char) : Bool := c == ' '
  let special := cs.any (fun c => !isPrintable c)
  let multiline := cs.any isBreak
  let edge (c : Option Char) : Bool := c.any (fun c => isBlank c || isBreak c)
  let spaceBreak := adjacent isBlank isBreak cs
  let breakSpace := adjacent isBreak isBlank cs
  { multiline
    plain := !(edge cs.head? || edge cs.getLast? || breakSpace || spaceBreak || special ||
      multiline || hasMark cs)
    single := !(breakSpace || spaceBreak || special)
    block := !(cs.isEmpty || cs.getLast? == some ' ' || spaceBreak || special) }

/-- The style in which a text is written. -/
def styleOf (s : String) : ScalarStyle :=
  let cs := s.toList
  let shape := shapeOf cs
  if cs.contains '\n' then if shape.block then .literal else .doubleQuoted
  else if shape.plain && meaning s == .text && !hasLeadingZero cs then .plain
  else if shape.single then .singleQuoted
  else .doubleQuoted

/-- The character in a double-quoted scalar. -/
def doubleEscaped (c : Char) : List Char :=
  if isPrintable c && !isBreak c && c ≠ '"' && c ≠ '\\' then [c]
  else
    '\\' :: match c with
      | '\x00' => ['0']
      | '\x07' => ['a']
      | '\x08' => ['b']
      | '\t' => ['t']
      | '\n' => ['n']
      | '\x0b' => ['v']
      | '\x0c' => ['f']
      | '\r' => ['r']
      | '\x1b' => ['e']
      | '"' => ['"']
      | '\\' => ['\\']
      | '\u0085' => ['N']
      | '\u00a0' => ['_']
      | '\u2028' => ['L']
      | '\u2029' => ['P']
      | c =>
          let n := c.toNat
          if n ≤ 0xFF then 'x' :: Digits.padded 16 2 true n
          else if n ≤ 0xFFFF then 'u' :: Digits.padded 16 4 true n
          else 'U' :: Digits.padded 16 8 true n

/-- So many spaces. -/
def spaces (n : Nat) : List Char := List.replicate n ' '

/-- The inside of a single-quoted scalar and its closing quote. A text goes on
    behind a line end at the given indentation. -/
def singleBody (indent : Nat) : List Char → (newLine : Bool) → List Char
  | [], newLine => (if newLine then spaces indent else []) ++ ['\'']
  | c :: rest, newLine =>
      if isBreak c then c :: singleBody indent rest true
      else
        (if newLine then spaces indent else []) ++
          ((if c = '\'' then ['\'', '\''] else [c]) ++ singleBody indent rest false)

/-- The lines of a literal block. Only lines with text are indented. -/
def literalBody (indent : Nat) : List Char → (newLine : Bool) → List Char
  | [], newLine => if newLine then [] else ['\n']
  | c :: rest, newLine =>
      if isBreak c then c :: literalBody indent rest true
      else (if newLine then spaces indent else []) ++ c :: literalBody indent rest false

/-- The header of a literal block: its depth, if the text would hide it, and
    what becomes of the line ends at the end. -/
def literalHeader (cs : List Char) : List Char :=
  let depth := if cs.head?.any (fun c => c == ' ' || isBreak c) then ['2'] else []
  let chomping := match cs.reverse with
    | [] => ['-']
    | b :: before =>
        if !isBreak b then ['-']
        else
          match before with
          | [] => ['+']
          | b' :: _ => if isBreak b' then ['+'] else []
  '|' :: (depth ++ chomping)

/-- A text as a scalar in a style. A block has its lines at the given
    indentation and ends with its last line; the other styles leave the line
    open. -/
def scalarIn (style : ScalarStyle) (indent : Nat) (cs : List Char) : List Char :=
  match style with
  | .plain => cs
  | .singleQuoted => '\'' :: singleBody indent cs false
  | .doubleQuoted => '"' :: (cs.flatMap doubleEscaped ++ ['"'])
  | .literal | .folded => literalHeader cs ++ '\n' :: literalBody indent cs true

/-- A text as a scalar on a line of its own or at the end of one, together with
    the end of that line. -/
def scalarText (indent : Nat) (s : String) : List Char :=
  match styleOf s with
  | .literal => scalarIn .literal indent s.toList
  | style => scalarIn style indent s.toList ++ ['\n']

end Yaml

end SimStudio
