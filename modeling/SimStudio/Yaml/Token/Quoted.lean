import SimStudio.Yaml.Token.Fold
import SimStudio.Number.Digits

/-!
# Quoted Scalars

Scalars between single or double quotes. In single quotes only the quote
itself is written in a special way, twice. In double quotes a backslash
begins an escape, and one at the end of a line joins it to the next.

Both are read by one pass over the characters that carries the text so far in
reverse and the gap since the last word.

## Main definitions

* `Yaml.escape?`: The character of a one-letter escape.
* `Yaml.hexWidth?`: The digit count of a numeric escape.
* `Yaml.scanSingle`, `Yaml.scanDouble`: Read a scalar behind its opening quote.
-/

namespace SimStudio

namespace Yaml

/-- The character that a backslash and a letter stand for. -/
def escape? (c : Char) : Option Char :=
  match c with
  | '0' => some '\x00'
  | 'a' => some '\x07'
  | 'b' => some '\x08'
  | 't' => some '\t'
  | '\t' => some '\t'
  | 'n' => some '\n'
  | 'v' => some '\x0b'
  | 'f' => some '\x0c'
  | 'r' => some '\r'
  | 'e' => some '\x1b'
  | ' ' => some ' '
  | '"' => some '"'
  | '/' => some '/'
  | '\\' => some '\\'
  | 'N' => some '\u0085'
  | '_' => some '\u00a0'
  | 'L' => some '\u2028'
  | 'P' => some '\u2029'
  | _ => none

/-- The number of hexadecimal digits behind a backslash and a letter. -/
def hexWidth? (c : Char) : Option Nat :=
  match c with
  | 'x' => some 2
  | 'u' => some 4
  | 'U' => some 8
  | _ => none

/-- The character with a code, unless it is a surrogate or no code at all. -/
def charOfCode? (n : Nat) : Option Char :=
  if h : n.isValidChar then some (Char.ofNatAux n h) else none

/-- Read a single-quoted scalar from behind its opening quote. -/
def scanSingle : List Char → Position → Gap → List Char → Option (String × Cursor)
  | [], _, _, _ => none
  | '\r' :: '\n' :: cs, pos, gap, acc => scanSingle cs (pos.newLine 2) (gap.addBreak '\n') acc
  | '\'' :: '\'' :: cs, pos, gap, acc =>
      scanSingle cs (pos.advance 2) .none ('\'' :: (gap.text ++ acc))
  | c :: cs, pos, gap, acc =>
      if isBreak c then scanSingle cs pos.newLine (gap.addBreak (normalBreak c)) acc
      else if isSpace c then scanSingle cs pos.advance (gap.addBlank c) acc
      else if pos.column = 0 && atDocumentMark (c :: cs) then none
      else if c = '\'' then some (String.ofList (gap.text ++ acc).reverse, ⟨cs, pos.advance⟩)
      else scanSingle cs pos.advance .none (c :: (gap.text ++ acc))

/-- What the reader of a double-quoted scalar is in the middle of. -/
inductive DoubleMode
  /-- Ordinary content. -/
  | content
  /-- Behind a backslash. -/
  | escape
  /-- Behind a letter that announces digits, this many of which are left. -/
  | digits (left : Nat) (code : Nat)
  deriving Inhabited

/-- Read a double-quoted scalar from behind its opening quote. -/
def scanDouble : List Char → Position → DoubleMode → Gap → List Char → Option (String × Cursor)
  | [], _, _, _, _ => none
  | c :: cs, pos, .digits left code, gap, acc =>
      match Digits.digit? c with
      | some d =>
          if d < 16 then
            let code := code * 16 + d
            if left ≤ 1 then
              match charOfCode? code with
              | some x => scanDouble cs pos.advance .content .none (x :: (gap.text ++ acc))
              | none => none
            else scanDouble cs pos.advance (.digits (left - 1) code) gap acc
          else none
      | none => none
  | '\r' :: '\n' :: cs, pos, .escape, gap, acc =>
      scanDouble cs (pos.newLine 2) .content (.lines .none []) (gap.text ++ acc)
  | c :: cs, pos, .escape, gap, acc =>
      if isBreak c then
        scanDouble cs pos.newLine .content (.lines .none []) (gap.text ++ acc)
      else
        match hexWidth? c with
        | some width => scanDouble cs pos.advance (.digits width 0) gap acc
        | none =>
            match escape? c with
            | some x => scanDouble cs pos.advance .content .none (x :: (gap.text ++ acc))
            | none => none
  | '\r' :: '\n' :: cs, pos, .content, gap, acc =>
      scanDouble cs (pos.newLine 2) .content (gap.addBreak '\n') acc
  | c :: cs, pos, .content, gap, acc =>
      if isBreak c then scanDouble cs pos.newLine .content (gap.addBreak (normalBreak c)) acc
      else if isSpace c then scanDouble cs pos.advance .content (gap.addBlank c) acc
      else if pos.column = 0 && atDocumentMark (c :: cs) then none
      else if c = '"' then some (String.ofList (gap.text ++ acc).reverse, ⟨cs, pos.advance⟩)
      else if c = '\\' then scanDouble cs pos.advance .escape gap acc
      else scanDouble cs pos.advance .content .none (c :: (gap.text ++ acc))

end Yaml

end SimStudio
