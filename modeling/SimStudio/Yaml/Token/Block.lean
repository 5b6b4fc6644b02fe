import SimStudio.Yaml.Token

/-!
# Block Scalars

Scalars whose text stands on lines of its own, below a header that begins with
a bar (line ends are kept) or an angle bracket (line ends are folded).

The header may fix how deep the text is indented; otherwise its first line
that is not blank decides, or a deeper blank line before it. It may also say
what happens to the line ends after the last line of text: all are kept, none
is, or the first one is.

The text is read in one pass over the characters, in turn inside the
indentation and inside the content of a line.

## Main definitions

* `Yaml.Chomping`: What happens to the line ends after the text.
* `Yaml.BlockHeader`: The decisions of a header.
* `Yaml.scanBlock`: Read a block scalar.
-/

namespace SimStudio

namespace Yaml

/-- What happens to the line ends after the last line of text. -/
inductive Chomping
  | strip
  | clip
  | keep
  deriving DecidableEq, Inhabited

/-- The decisions of a block scalar's header. -/
structure BlockHeader where
  literal : Bool
  chomping : Chomping
  /-- How much deeper than its parent the text stands, if that is fixed. -/
  depth : Option Nat
  deriving Inhabited

/-- The chomping that a sign stands for. -/
def chompingOf? (c : Char) : Option Chomping :=
  if c = '+' then some .keep else if c = '-' then some .strip else none

/-- Read the header behind its first character: a sign and a digit from 1 to
    9 in either order, both optional, and nothing else but a comment. -/
def scanBlockHeader (literal : Bool) (c : Cursor) : Option (BlockHeader × Cursor) :=
  let sign (c : Cursor) : Chomping × Cursor :=
    match c.rest with
    | x :: _ =>
        match chompingOf? x with
        | some chomping => (chomping, c.skip 1)
        | none => (.clip, c)
    | [] => (.clip, c)
  let digit (c : Cursor) : Option (Option Nat × Cursor) :=
    match c.rest with
    | x :: _ =>
        if x = '0' then none
        else if x.isDigit then some (some (x.toNat - '0'.toNat), c.skip 1)
        else some (none, c)
    | [] => some (none, c)
  let signFirst := (c.rest.head?.bind chompingOf?).isSome
  do
    let (chomping, depth, c) ←
      if signFirst then do
        let (chomping, c) := sign c
        let (depth, c) ← digit c
        pure (chomping, depth, c)
      else do
        let (depth, c) ← digit c
        let (chomping, c) := if depth.isSome then sign c else (.clip, c)
        pure (chomping, depth, c)
    let c ← c.finishLine?
    pure (⟨literal, chomping, depth⟩, c)

/-- The blank lines before the text, if its depth is not fixed: the greatest
    column reached in them, their line ends in reverse, and the cursor at the
    first character that is neither a space nor a line end. A tab there is an
    error. -/
def scanLeadingLines :
    List Char → Position → Nat → List Char → Option (Nat × List Char × Cursor)
  | [], pos, deepest, breaks => some (max deepest pos.column, breaks, ⟨[], pos⟩)
  | '\r' :: '\n' :: cs, pos, deepest, breaks =>
      scanLeadingLines cs (pos.newLine 2) (max deepest pos.column) ('\n' :: breaks)
  | c :: cs, pos, deepest, breaks =>
      if c = ' ' then scanLeadingLines cs pos.advance deepest breaks
      else if c = '\t' then none
      else if isBreak c then
        scanLeadingLines cs pos.newLine (max deepest pos.column) (normalBreak c :: breaks)
      else some (max deepest pos.column, breaks, ⟨c :: cs, pos⟩)

/-- What has been read of the text of a block scalar. -/
structure BlockText where
  /-- The text up to the last line end, in reverse. -/
  text : List Char
  /-- The line end of the last line of text, if there is one. -/
  lastBreak : Option Char
  /-- The line ends of the blank lines since, in reverse. -/
  blankLines : List Char
  /-- Whether the last line of text began with a blank. -/
  ledByBlank : Bool
  deriving Inhabited

namespace BlockText

/-- Begin a line of text whose first character is given. Folding turns a line
    end between two lines that do not begin with a blank into a space, or into
    nothing if blank lines follow it. -/
def beginLine (t : BlockText) (literal : Bool) (c : Char) : BlockText :=
  let blank := isSpace c
  let joint : List Char :=
    match t.lastBreak with
    | none => []
    | some b =>
        if !literal && b == '\n' && !t.ledByBlank && !blank then
          if t.blankLines.isEmpty then [' '] else []
        else [b]
  ⟨t.blankLines ++ (joint ++ t.text), none, [], blank⟩

/-- The scalar, with the line ends at its end as the chomping says. -/
def finish (t : BlockText) (chomping : Chomping) : String :=
  let last := t.lastBreak.toList
  String.ofList (match chomping with
    | .strip => t.text
    | .clip => last ++ t.text
    | .keep => t.blankLines ++ (last ++ t.text)).reverse

end BlockText

/-- Read the lines of a block scalar that are indented by `indent` columns.
    `inLine` says whether the characters continue a line of text or stand in
    the indentation before one. -/
def scanBlockLines (literal : Bool) (indent : Nat) :
    List Char → Position → Bool → BlockText → Option (BlockText × Cursor)
  | [], pos, _, t => some (t, ⟨[], pos⟩)
  | '\r' :: '\n' :: cs, pos, true, t =>
      scanBlockLines literal indent cs (pos.newLine 2) false { t with lastBreak := some '\n' }
  | '\r' :: '\n' :: cs, pos, false, t =>
      scanBlockLines literal indent cs (pos.newLine 2) false
        { t with blankLines := '\n' :: t.blankLines }
  | c :: cs, pos, true, t =>
      if isBreak c then
        scanBlockLines literal indent cs pos.newLine false { t with lastBreak := some (normalBreak c) }
      else scanBlockLines literal indent cs pos.advance true { t with text := c :: t.text }
  | c :: cs, pos, false, t =>
      if c = ' ' ∧ pos.column < indent then
        scanBlockLines literal indent cs pos.advance false t
      else if c = '\t' ∧ pos.column < indent then none
      else if isBreak c then
        scanBlockLines literal indent cs pos.newLine false
          { t with blankLines := normalBreak c :: t.blankLines }
      else if pos.column = indent then
        let t := t.beginLine literal c
        scanBlockLines literal indent cs pos.advance true { t with text := c :: t.text }
      else some (t, ⟨c :: cs, pos⟩)

/-- Read a block scalar from behind its first character, inside a block that
    is indented by `parent` columns (`-1` outside any block). -/
def scanBlock (literal : Bool) (parent : Int) (c : Cursor) : Option (String × Cursor) := do
  let (header, c) ← scanBlockHeader literal c
  let (indent, breaks, c) ←
    match header.depth with
    | some depth => some ((max parent 0).toNat + depth, [], c)
    | none => do
        let (deepest, breaks, c) ← scanLeadingLines c.rest c.pos 0 []
        pure (max (max deepest (parent + 1).toNat) 1, breaks, c)
  let (t, c) ← scanBlockLines literal indent c.rest c.pos false ⟨[], none, breaks, false⟩
  pure (t.finish header.chomping, c)

end Yaml

end SimStudio
