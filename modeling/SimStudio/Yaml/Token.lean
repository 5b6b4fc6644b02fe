import SimStudio.Yaml.Char

/-!
# Tokens of YAML

The lexemes of a YAML text, and the place in a text that a scanner has
reached.

Indentation is made explicit: a deeper line that opens a collection brings a
start token, and a shallower one brings an end token for every collection it
leaves. A key token stands before a simple key, although the text shows only
by the colon behind it that it was one.

## Main definitions

* `Yaml.ScalarStyle`: The five ways to write a scalar.
* `Yaml.Token`: A lexeme.
* `Yaml.Position`: How far a scanner has come, by characters and by lines.
* `Yaml.Cursor`: A position with the text that is left.
-/

namespace SimStudio

namespace Yaml

/-- The ways to write a scalar. -/
inductive ScalarStyle
  | plain
  | singleQuoted
  | doubleQuoted
  | literal
  | folded
  deriving DecidableEq, Inhabited

/-- A lexeme. Of a tag, handle and rest are kept apart until directives have
    given the handle a meaning. -/
inductive Token
  | version (major minor : Nat)
  | handle (name address : String)
  | documentStart
  | documentEnd
  | streamEnd
  | blockSequence
  | blockMapping
  | blockEnd
  | flowSequence
  | flowSequenceEnd
  | flowMapping
  | flowMappingEnd
  | blockEntry
  | flowEntry
  | key
  | value
  | alias (name : String)
  | anchor (name : String)
  | tag (handle rest : String)
  | scalar (style : ScalarStyle) (text : String)
  deriving DecidableEq, Inhabited

/-- How far a scanner has come: characters read, lines ended, and characters
    read in the current line. -/
structure Position where
  index : Nat
  line : Nat
  column : Nat
  deriving DecidableEq, Inhabited

namespace Position

/-- The beginning of a text. -/
def start : Position := ⟨0, 0, 0⟩

/-- Past `n` more characters of the current line. -/
def advance (p : Position) (n : Nat := 1) : Position := ⟨p.index + n, p.line, p.column + n⟩

/-- Past a line end of `n` characters. -/
def newLine (p : Position) (n : Nat := 1) : Position := ⟨p.index + n, p.line + 1, 0⟩

end Position

/-- A position with the text that is left. -/
structure Cursor where
  rest : List Char
  pos : Position
  deriving Inhabited

namespace Cursor

/-- Past the first `n` characters, none of which ends a line. -/
def skip (c : Cursor) (n : Nat) : Cursor := ⟨c.rest.drop n, c.pos.advance n⟩

/-- The longest run of characters of a class, none of which ends a line, and
    the cursor behind it. -/
def run (c : Cursor) (p : Char → Bool) : List Char × Cursor :=
  let word := c.rest.takeWhile p
  (word, c.skip word.length)

/-- Past a run of characters of a class, none of which ends a line. -/
def skipRun (c : Cursor) (p : Char → Bool) : Cursor := (c.run p).2

/-- Past a line end, if the cursor stands at one. A carriage return and a line
    feed together end one line. -/
def skipBreak (c : Cursor) : Cursor :=
  match c.rest with
  | '\r' :: '\n' :: rest => ⟨rest, c.pos.newLine 2⟩
  | b :: rest => if isBreak b then ⟨rest, c.pos.newLine⟩ else c
  | [] => c

/-- Past the blanks and the comment at the end of a line, and past the line
    end; nothing if something else stands there. -/
def finishLine? (c : Cursor) : Option Cursor :=
  let c := c.skipRun isSpace
  let c := if c.rest.head? = some '#' then c.skipRun (fun x => !isBreak x) else c
  match c.rest with
  | [] => some c
  | b :: _ => if isBreak b then some c.skipBreak else none

end Cursor

end Yaml

end SimStudio
