import SimStudio.Yaml.Token.Quoted
import SimStudio.Yaml.Token.Plain
import SimStudio.Yaml.Token.Block
import SimStudio.Yaml.Token.Tag

/-!
# Scanning

From the text of a YAML stream to its tokens.

Outside flow collections the scanner keeps the columns of the open block
collections. A token in a shallower column closes those that are deeper, and
an entry, key or colon in a deeper column opens one.

Whether a scalar is a key shows only at the colon behind it. So the place of
every lexeme that could begin a simple key is remembered, one for each flow
level; a colon puts a key token there, and the start of a block mapping if the
key opens one. A candidate lapses at the end of its line and after 1024
characters. One that stands in the column of the open block must turn out to
be a key, since nothing else may begin there.

## Main definitions

* `Yaml.KeyCandidate`: A place where a simple key may have begun.
* `Yaml.Scan`: The state of the scanner.
* `Yaml.Scan.step`: Read one lexeme.
* `Yaml.tokens?`: The tokens of a text, if all of it can be scanned.
-/

namespace SimStudio

namespace Yaml

/-- A place where a simple key may have begun. -/
structure KeyCandidate where
  /-- How many tokens stood before it. -/
  count : Nat
  pos : Position
  /-- Whether nothing but a key may stand there. -/
  required : Bool
  deriving Inhabited

/-- The state of the scanner. -/
structure Scan where
  cursor : Cursor
  /-- The tokens so far, in reverse. -/
  tokens : List Token
  /-- The column of the innermost open block collection, `-1` outside any. -/
  indent : Int
  /-- The columns of the block collections around it. -/
  outer : List Int
  /-- The candidates of the flow levels, the innermost first. There is always
      one more than flow collections are open. -/
  candidates : List (Option KeyCandidate)
  /-- Whether a simple key may begin here. -/
  keyAllowed : Bool
  deriving Inhabited

namespace Scan

/-- The state at the beginning of a text. -/
def start (cs : List Char) : Scan := ⟨⟨cs, .start⟩, [], -1, [], [none], true⟩

/-- Whether a flow collection is open. -/
def inFlow (s : Scan) : Bool := 1 < s.candidates.length

/-- The column of the cursor. -/
def column (s : Scan) : Nat := s.cursor.pos.column

/-- Put a token at the end. -/
def emit (s : Scan) (t : Token) : Scan := { s with tokens := t :: s.tokens }

/-- Put tokens behind the first `count` ones. -/
def emitAt (s : Scan) (count : Nat) (ts : List Token) : Scan :=
  let later := s.tokens.length - count
  { s with tokens := s.tokens.take later ++ (ts.reverse ++ s.tokens.drop later) }

/-- Skip characters of the current line. -/
def skip (s : Scan) (n : Nat) : Scan := { s with cursor := s.cursor.skip n }

/-- Read past blanks, comments and line ends, from a place inside a comment or
    not. A tab counts as a blank only where no simple key may begin. Outside
    flow collections the end of a line allows a key. -/
def toLexeme (inFlow : Bool) : List Char → Position → (comment keyAllowed : Bool) → Cursor × Bool
  | [], pos, _, keyAllowed => (⟨[], pos⟩, keyAllowed)
  | '\r' :: '\n' :: cs, pos, _, keyAllowed =>
      toLexeme inFlow cs (pos.newLine 2) false (keyAllowed || !inFlow)
  | c :: cs, pos, comment, keyAllowed =>
      if isBreak c then toLexeme inFlow cs pos.newLine false (keyAllowed || !inFlow)
      else if comment || c == ' ' || (c == '\t' && (inFlow || !keyAllowed)) ||
          (pos.column == 0 && c == byteOrderMark) then
        toLexeme inFlow cs pos.advance comment keyAllowed
      else if c = '#' then toLexeme inFlow cs pos.advance true keyAllowed
      else (⟨c :: cs, pos⟩, keyAllowed)

/-- Skip to the next lexeme. -/
def skipGap (s : Scan) : Scan :=
  let (cursor, keyAllowed) := toLexeme s.inFlow s.cursor.rest s.cursor.pos false s.keyAllowed
  { s with cursor, keyAllowed }

/-- Whether a candidate can no longer become a key at a position. -/
def lapsed (pos : Position) (k : KeyCandidate) : Bool :=
  k.pos.line < pos.line || k.pos.index + 1024 < pos.index

/-- Drop the candidates that have lapsed; a required one must not. -/
def dropLapsed (s : Scan) : Option Scan :=
  let pos := s.cursor.pos
  if s.candidates.any fun k => k.any fun k => k.required && lapsed pos k then none
  else some { s with candidates := s.candidates.map fun k => k.filter fun k => !lapsed pos k }

/-- Give up the candidate of the current level, which must not be a required
    one. -/
def dropCandidate (s : Scan) : Option Scan :=
  match s.candidates with
  | some k :: rest => if k.required then none else some { s with candidates := none :: rest }
  | _ => some s

/-- Remember the cursor as the place of a candidate, if a key may begin. -/
def saveCandidate (s : Scan) : Option Scan :=
  if s.keyAllowed then do
    let required := !s.inFlow && s.indent == s.column
    let s ← s.dropCandidate
    pure { s with
      candidates := some ⟨s.tokens.length, s.cursor.pos, required⟩ :: s.candidates.drop 1 }
  else some s

/-- Close the block collections that are deeper than a column. -/
def unroll (column : Int) (tokens : List Token) (indent : Int) :
    List Int → List Token × Int × List Int
  | [] => (tokens, indent, [])
  | parent :: outer =>
      if column < indent then unroll column (.blockEnd :: tokens) parent outer
      else (tokens, indent, parent :: outer)

/-- Close the block collections that are deeper than a column. -/
def closeBlocks (s : Scan) (column : Int) : Scan :=
  if s.inFlow then s
  else
    let (tokens, indent, outer) := unroll column s.tokens s.indent s.outer
    { s with tokens, indent, outer }

/-- Whether a block collection in a column would be deeper than the open one. -/
def opensBlock (s : Scan) (column : Nat) : Bool := !s.inFlow && s.indent < column

/-- Make a column that of the open block. -/
def enter (s : Scan) (column : Nat) : Scan :=
  { s with indent := column, outer := s.indent :: s.outer }

/-- Open a block collection at the cursor, if it would be deeper. -/
def openBlock (s : Scan) (t : Token) : Scan :=
  if s.opensBlock s.column then (s.enter s.column).emit t else s

/-- A lexeme of a fixed number of characters. -/
def mark (s : Scan) (n : Nat) (t : Token) : Scan := (s.skip n).emit t

/-- A document mark or a directive ends all blocks. -/
def leaveDocument (s : Scan) : Option Scan := do
  let s ← (s.closeBlocks (-1)).dropCandidate
  pure { s with keyAllowed := false }

/-- The opening mark of a flow collection. -/
def openFlow (s : Scan) (t : Token) : Option Scan := do
  let s ← s.saveCandidate
  pure ({ s with candidates := none :: s.candidates, keyAllowed := true }.mark 1 t)

/-- The closing mark of a flow collection. -/
def closeFlow (s : Scan) (t : Token) : Option Scan := do
  let s ← s.dropCandidate
  let candidates := if s.inFlow then s.candidates.drop 1 else s.candidates
  pure ({ s with candidates, keyAllowed := false }.mark 1 t)

/-- The comma of a flow collection. -/
def flowEntry (s : Scan) : Option Scan := do
  let s ← s.dropCandidate
  pure ({ s with keyAllowed := true }.mark 1 .flowEntry)

/-- The dash of a sequence entry. -/
def blockEntry (s : Scan) : Option Scan := do
  if !s.inFlow && !s.keyAllowed then none
  let s ← (s.openBlock .blockSequence).dropCandidate
  pure ({ s with keyAllowed := true }.mark 1 .blockEntry)

/-- The question mark of a complex key. -/
def complexKey (s : Scan) : Option Scan := do
  if !s.inFlow && !s.keyAllowed then none
  let s ← (s.openBlock .blockMapping).dropCandidate
  pure ({ s with keyAllowed := !s.inFlow }.mark 1 .key)

/-- The colon of a value. If there is a candidate, it is the key; otherwise the
    value belongs to a complex key or to none. -/
def value (s : Scan) : Option Scan :=
  match s.candidates with
  | some k :: rest =>
      let opens := s.opensBlock k.pos.column
      let s := s.emitAt k.count (if opens then [.blockMapping, .key] else [.key])
      let s := if opens then s.enter k.pos.column else s
      some ({ s with candidates := none :: rest, keyAllowed := false }.mark 1 .value)
  | _ =>
      if s.inFlow then some ({ s with keyAllowed := false }.mark 1 .value)
      else if s.keyAllowed then
        some ({ s.openBlock .blockMapping with keyAllowed := true }.mark 1 .value)
      else none

/-- A lexeme that may begin a simple key, but not follow one. -/
def word (s : Scan) (read : Cursor → Option (Token × Cursor)) : Option Scan := do
  let s ← s.saveCandidate
  let (t, cursor) ← read s.cursor
  pure ({ s with cursor, keyAllowed := false }.emit t)

/-- A plain scalar. A line end behind it allows a key. -/
def plain (s : Scan) : Option Scan := do
  let s ← s.saveCandidate
  let p ← scanPlain s.inFlow (s.indent + 1) s.cursor.rest s.cursor.pos .none []
  pure ({ s with cursor := p.cursor, keyAllowed := p.endedLine }.emit (.scalar .plain p.text))

/-- A block scalar. A key may follow it, but it is none itself. -/
def block (s : Scan) (literal : Bool) : Option Scan := do
  let s ← s.dropCandidate
  let (text, cursor) ← scanBlock literal s.indent (s.cursor.skip 1)
  let style := if literal then .literal else .folded
  pure ({ s with cursor, keyAllowed := true }.emit (.scalar style text))

/-- Whether a plain scalar may begin with these characters. -/
def beginsPlain (inFlow : Bool) : List Char → Bool
  | [] => false
  | '-' :: rest => !(rest.head?.any isSpace)
  | c :: rest =>
      if c == '?' || c == ':' then !inFlow && !endsWord rest
      else !(isGap c || ",[]{}#&*!|>'\"%@`".toList.contains c)

/-- Read the lexeme at the cursor, which stands before none of the gap
    characters. -/
def lexeme (s : Scan) : Option Scan :=
  let cs := s.cursor.rest
  if s.column = 0 ∧ cs.head? = some '%' then do
    let s ← s.leaveDocument
    let (t, cursor) ← scanDirective s.cursor
    pure ({ s with cursor }.emit t)
  else if s.column = 0 ∧ atDocumentMark cs then do
    let s ← s.leaveDocument
    pure (s.mark 3 (if cs.head? = some '-' then .documentStart else .documentEnd))
  else
    match cs with
    | [] => none
    | c :: rest =>
        let apart := endsWord rest
        match c with
        | '[' => s.openFlow .flowSequence
        | '{' => s.openFlow .flowMapping
        | ']' => s.closeFlow .flowSequenceEnd
        | '}' => s.closeFlow .flowMappingEnd
        | ',' => s.flowEntry
        | '*' => s.word fun c => (scanName (c.skip 1)).map fun (name, c) => (.alias name, c)
        | '&' => s.word fun c => (scanName (c.skip 1)).map fun (name, c) => (.anchor name, c)
        | '!' => s.word fun c => (scanTag s.inFlow c).map fun (h, r, c) => (.tag h r, c)
        | '\'' => s.word fun c =>
            (scanSingle rest c.pos.advance .none []).map fun (text, c) =>
              (.scalar .singleQuoted text, c)
        | '"' => s.word fun c =>
            (scanDouble rest c.pos.advance .content .none []).map fun (text, c) =>
              (.scalar .doubleQuoted text, c)
        | c =>
            if c = '-' ∧ apart then s.blockEntry
            else if c = '?' ∧ (s.inFlow ∨ apart) then s.complexKey
            else if c = ':' ∧ (s.inFlow ∨ apart) then s.value
            else if c = '|' ∧ !s.inFlow then s.block true
            else if c = '>' ∧ !s.inFlow then s.block false
            else if beginsPlain s.inFlow cs then s.plain
            else none

/-- Read one lexeme, with the gap before it. -/
def step (s : Scan) : Option Scan := do
  let s ← s.skipGap.dropLapsed
  (s.closeBlocks s.column).lexeme

/-- Close everything at the end of the text. -/
def finish (s : Scan) : Option (List Token) := do
  let s ← s.skipGap.dropLapsed
  let s ← (s.closeBlocks (-1)).dropCandidate
  pure (.streamEnd :: s.tokens).reverse

/-- Read lexemes to the end of the text. Every lexeme takes a character, so
    the length of the text is enough fuel. -/
def run : (fuel : Nat) → Scan → Option (List Token)
  | 0, _ => none
  | fuel + 1, s =>
      if s.skipGap.cursor.rest.isEmpty then s.finish else s.step.bind (run fuel)

end Scan

/-- The tokens of a text, if all its characters are readable and all of it can
    be scanned. -/
def tokens? (text : String) : Option (List Token) :=
  let cs := text.toList
  if cs.all isReadable then (Scan.start cs).run (cs.length + 1) else none

end Yaml

end SimStudio
